import SecondaryIndex.Session.Basic

/-!
# Steps on the store

Here the steps on the store, its transactions and raw iterators are carried out. The engine calls
among them draw their fates as those of an index do; inspecting the store does not.
-/

namespace SecondaryIndex

namespace Session

/-- Puts successive words with empty values. -/
def putWords (id : TransactionId) (ns : Namespace) (first : UInt64) : Nat → SessionM Unit
  | 0 => pure ()
  | n + 1 => do
    ofEngine (Engine.put id ns (BigEndian.ofUInt64 first) [])
    putWords id ns (first + 1) n

/-- The keys that a transaction sees in a namespace, or that a fresh one would see. -/
def dumpKeys (ns : Namespace) : Option Handle → SessionM (List Bytes)
  | some tx => do ofEngine (Engine.visibleKeys (← transaction tx) ns .all)
  | none => ofStore fun store => do pure (← store.table ns).contents.keys

/-- Commits a transaction; a conflict can be told without its namespace. -/
def commit (tx : Handle) (hideNamespace : Bool) : SessionM Answer := do
  let id ← transaction tx
  let hush : StepError → SessionM Answer
    | .engine (.conflict ns) =>
      if hideNamespace then pure (.text "conflict") else throw (.engine (.conflict ns))
    | e => throw e
  tryCatch (do
    ofEngine (Engine.commit id)
    pure .done) hush

/-- Makes an index. Its halves share its counters. -/
def makeIndex (spec : IndexSpec) (session : Session) : IndexHandle × Session :=
  let (options, database) :=
    if spec.counted then
      let (id, database) := session.database.installMetrics
      ({ spec.options with metrics := some id }, database)
    else (spec.options, session.database)
  let keys := spec.keys.codec
  let values := spec.values.codec
  let index :=
    match spec.reverseNs with
    | none => .oneWay (Index.create spec.name spec.ns keys values options)
    | some reverseNs =>
      .twoWay (TwoWayIndex.create spec.name spec.ns reverseNs keys values options)
  (⟨spec.keys, spec.values, index⟩, { session with database })

/-- Carries out a step on the store. -/
def performStore : StoreStep → SessionM Answer
  | .createNamespace ns => do
    modifyStore fun store => store.createNamespace ns
    pure (.text ns)
  | .hasNamespace ns => do ofStore fun store => pure (.flag (store.hasNamespace ns))
  | .flush ns => do
    let store ← ofStore fun store => store.flush ns
    modifyStore fun _ => store
    pure .done
  | .flushAll => do
    modifyStore Store.flushAll
    pure .done
  | .openIterators => do ofStore fun store => pure (.number store.openIterators)
  | .recentTally ns range => do pure (.memtable (← ofEngine (Engine.recentTally ns range)))
  | .olderSize ns range => do
    pure (.large (← ofEngine (Engine.olderSize ns range)).toNat)
  | .dump ns tx? => do pure (.keys (← dumpKeys ns tx?))
  | .begin tx => do
    holdTransaction tx (← ofEngine Engine.begin)
    pure .done
  | .commit tx hideNamespace => commit tx hideNamespace
  | .rollback tx => do
    ofEngine (Engine.rollback (← transaction tx))
    pure .done
  | .drop tx => do
    let _ ← transaction tx
    modifyThe Session (dropTransaction tx)
    pure .done
  | .pending tx => do
    let held ← ofEngine (Engine.transaction (← transaction tx))
    pure (.number held.pending)
  | .get tx ns key => do
    let id ← transaction tx
    pure (.lookup (← ofEngine (Engine.lookup id ns key)))
  | .put tx ns key value => do
    let id ← transaction tx
    ofEngine (Engine.put id ns key value)
    pure .done
  | .putRange tx ns first n => do
    let id ← transaction tx
    putWords id ns first n
    pure .done
  | .delete tx ns key => do
    let id ← transaction tx
    ofEngine (Engine.delete id ns key)
    pure .done
  | .iterator it tx ns range => do
    let id ← transaction tx
    let iterator ← ofEngine (Engine.openIterator id ns range)
    holdIterator it iterator
    pure (.place iterator.key?)
  | .context tx? => do
    let ctx ← contextOf tx?
    let byDefault : Context := none
    pure (.context ctx.isNone ctx.isSome byDefault.isNone)
  | .fault call skip times => do
    modifyThe Session (mapDatabase (Database.mapEngine fun engine =>
      { engine with faults := engine.faults.arm call skip times }))
    pure .done
  | .clearFaults => do
    modifyThe Session (mapDatabase (Database.mapEngine fun engine =>
      { engine with faults := .healthy }))
    pure .done
  | .index ix spec => do
    let (held, session) := makeIndex spec (← getThe Session)
    set { session with indexes := session.indexes.insert ix held }
    pure .done

/-- Moves the iterator of a handle. -/
def moveIterator (it : Handle) (move : RawIterator → RawIterator) : SessionM Answer := do
  let iterator := move (← resolve (← getThe Session).iterators it)
  modifyThe Session fun session =>
    { session with iterators := session.iterators.insert it iterator }
  pure (.place iterator.key?)

/-- Carries out a step of a raw iterator. -/
def performIterator (it : Handle) : IteratorStep → SessionM Answer
  | .seekFirst => moveIterator it RawIterator.seekFirst
  | .seekLast => moveIterator it RawIterator.seekLast
  | .seek key => moveIterator it fun iterator => iterator.seek key
  | .next => moveIterator it RawIterator.next
  | .prev => moveIterator it RawIterator.prev
  | .status => do
    let iterator ← resolve (← getThe Session).iterators it
    ofEngine Engine.status
    pure (.place iterator.key?)
  | .drop => do
    let _ ← resolve (← getThe Session).iterators it
    modifyThe Session (dropIterator it)
    pure .done

end Session

end SecondaryIndex
