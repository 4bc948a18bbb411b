import SecondaryIndex.Session.Basic

/-!
# Steps of an index

A step of an index is first resolved to the index or the half that it is sent to, and to the context
it runs in. Items are then read by the kinds of that index.
-/

namespace SecondaryIndex

namespace IndexHandle

/-- The half of a two-way index, as an index of its own. A plain index has no halves. -/
def half? (held : IndexHandle) (half : Session.Half) : Option IndexHandle :=
  match held, half with
  | ⟨keys, values, .twoWay index⟩, .forward => some ⟨keys, values, .oneWay index.forward⟩
  | ⟨keys, values, .twoWay index⟩, .reverse => some ⟨values, keys, .oneWay index.reverse⟩
  | ⟨_, _, .oneWay _⟩, _ => none

end IndexHandle

namespace Session

/-- Opens a cursor and gives it a handle. -/
def openCursor (c : Handle) (kind : ItemKind) (program : IndexM (Cursor kind.Carrier)) :
    SessionM Answer := do
  holdCursor c kind (← ofIndex program)
  pure (.text "cursor")

/-- Reads the pairs of a step. -/
def readPairs (keys values : ItemKind) (pairs : List (String × String)) :
    SessionM (List (keys.Carrier × values.Carrier)) :=
  pairs.mapM fun (key, value) => do
    let key ← readItem keys key
    let value ← readItem values value
    pure (key, value)

/-- Asks the statistics of an index. -/
def askStatistics {keys values : ItemKind} (stats : Statistics keys.Carrier values.Carrier)
    (budget : Budget) (estimateOk : Bool) : StatisticsQuery → SessionM (Option Count)
  | .entries => pure (stats.entries budget estimateOk)
  | .keys => pure (stats.keys budget estimateOk)
  | .valuesOfKey key => do pure (stats.valuesOfKey (← readItem keys key) budget estimateOk)
  | .values => pure (stats.values budget estimateOk)
  | .keysWithValue value => do
    pure (stats.keysWithValue (← readItem values value) budget estimateOk)

/-- Carries out a step of an index in a context. -/
def performOnIndex (held : IndexHandle) (ctx : Context) : IndexStep → SessionM Answer
  | .name => pure (.text held.index.name)
  | .lifecycle => pure (.flag true)
  | .add key value => do
    let key ← readItem held.keys key
    let value ← readItem held.values value
    ofIndex (held.index.add ctx key value)
    pure .done
  | .addMany pairs => do
    let pairs ← readPairs held.keys held.values pairs
    pure (.number (← ofIndex (held.index.addMany ctx pairs)))
  | .remove key value => do
    let key ← readItem held.keys key
    let value ← readItem held.values value
    ofIndex (held.index.remove ctx key value)
    pure .done
  | .removeAll key => do
    let key ← readItem held.keys key
    pure (.number (← ofIndex (held.index.removeAll ctx key)))
  | .findFirst key => do
    let key ← readItem held.keys key
    let value ← ofIndex (held.index.forward.findFirst ctx key)
    pure (.item (held.values.toText value))
  | .find c key => do
    let key ← readItem held.keys key
    openCursor c held.values (held.index.forward.find ctx key)
  | .scanKeys c => openCursor c held.keys (held.index.forward.scanKeys ctx)
  | .scanDistinctKeys c => openCursor c held.keys (held.index.forward.scanDistinctKeys ctx)
  | .scanValues c => openCursor c held.values (held.index.forward.scanValues ctx)
  | .findByValue c value => do
    match held.index.reverse? with
    | none => pure (.text "no reverse lookup")
    | some reverse =>
      let value ← readItem held.values value
      openCursor c held.keys (reverse.find ctx value)
  | .count => do pure (.number (← ofIndex (held.index.forward.count ctx)))
  | .countKey key => do
    let key ← readItem held.keys key
    pure (.number (← ofIndex (held.index.forward.countKey ctx key)))
  | .span key => do
    let key ← readItem held.keys key
    let (lower, upper) ← ofIndex (IndexM.ofEncoding (held.index.forward.span key))
    pure (.bounds lower upper)
  | .estimateRange range => do pure (.large (← ofIndex (held.index.forward.estimateRange range)))
  | .estimateKey key => do
    let key ← readItem held.keys key
    pure (.large (← ofIndex (held.index.forward.estimateKey key)))
  | .estimateSize => do pure (.large (← ofIndex held.index.forward.estimateSize))
  | .statistics query budget estimateOk meanwhile force => do
    match ← askStatistics (held.index.statistics ctx) budget estimateOk query with
    | none => pure .noCount
    | some count =>
      -- the count was asked for before these pairs come in, and is computed after
      let pairs ← readPairs held.keys held.values meanwhile
      let _ ← ofIndex (held.index.addMany none pairs)
      if force then pure (.count count (some (← ofIndex count.value)))
      else pure (.count count none)
  | .describe => pure (.text held.index.describe)
  | .metrics => do
    let counters := (← getThe Session).database.metrics
    pure (.counters (held.index.forward.options.metrics.bind counters.get?))
  | .namespaceName => pure (.namespaceName held.index.forward.ns)
  | .layout => pure (.text held.index.forward.codec.layout.name)
  | .physicalKey key value => do
    let key ← readItem held.keys key
    let value ← readItem held.values value
    pure (.bytes (← ofIndex (IndexM.ofEncoding (held.index.forward.codec.encode key value))))

/-- Carries out a step of an index handle. -/
def performIndex (ix : Handle) (half? : Option Half) (tx? : Option Handle) (step : IndexStep) :
    SessionM Answer := do
  let held ← resolve (← getThe Session).indexes ix
  let held ← match half? with
    | none => pure held
    | some half =>
      match held.half? half with
      | some part => pure part
      | none => throw .badInput
  -- a half that is not there is told before a transaction that is not there
  let ctx ← contextOf tx?
  performOnIndex held ctx step

end Session

end SecondaryIndex
