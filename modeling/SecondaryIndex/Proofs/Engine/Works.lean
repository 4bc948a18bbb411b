import Mathlib.Logic.Relation
import SecondaryIndex.Proofs.Engine.Steady

/-!
# Work within a transaction

A program that runs within a transaction can do two kinds of things to an engine, whether it succeeds
or fails: it writes in its transaction, or it does something that no transaction notices, such as to
draw the fate of a call or to open an iterator (`Engine.Idles`). `Engine.Works allowed id e e'` is that
nothing else lies between two engines, and that nothing was written but what is allowed.

What work comes to is shown deed by deed. It is steady (`Works.steady`), it leaves the store and the
other transactions as they are (`Works.keeps`), and in the ledger it is one change of what the
transaction has pending (`Works.exists_changes`).
-/

namespace SecondaryIndex

/-- What a write must be for an engine to be worked with: the place and what is written there. -/
abbrev Allowance := Place → Slot → Prop

/-- All of some writes are allowed. -/
def Allowance.Admits (allowed : Allowance) (c : Changes Place Bytes) : Prop :=
  ∀ x slot, c x = some slot → allowed x slot

theorem Allowance.admits_nothing (allowed : Allowance) : allowed.Admits .nothing := nofun

theorem Allowance.admits_single {allowed : Allowance} {x : Place} {slot : Slot} (h : allowed x slot) :
    allowed.Admits (.single x slot) := by
  intro y slot' hy
  unfold Changes.single at hy
  split at hy
  · next heq => rwa [heq, ← Option.some.inj hy]
  · cases hy

/-- Changes that are allowed are allowed one after the other. -/
theorem Allowance.Admits.after {allowed : Allowance} {c c' : Changes Place Bytes}
    (h : allowed.Admits c) (h' : allowed.Admits c') : allowed.Admits (c'.after c) := by
  intro x slot hx
  rcases Option.or_eq_some_iff.1 hx with hnew | ⟨-, hold⟩
  · exact h' x slot hnew
  · exact h x slot hold

/-- A store of which only the number of open iterators may be another one. -/
def Store.withIterators (store : Store) (n : Nat) : Store := { store with openIterators := n }

namespace Store

variable (store : Store) (n : Nat)

@[simp] theorem withIterators_withIterators (m : Nat) :
    (store.withIterators m).withIterators n = store.withIterators n := rfl

@[simp] theorem withIterators_lastCommit : (store.withIterators n).lastCommit = store.lastCommit := rfl

@[simp] theorem withIterators_read : (store.withIterators n).read = store.read := rfl

end Store

/-- What a transaction keeps from its begin to its end, and whether it has ended. -/
def Transaction.frame (tx : Transaction) : Nat × Bool := (tx.start, tx.finished)

namespace Engine

variable {e e' e'' : Engine} {id : TransactionId} {allowed allowed' : Allowance}

/-! ### Nothing that a transaction notices -/

/-- Nothing happened but that fates were drawn, and iterators opened and released. -/
structure Idles (e e' : Engine) : Prop where
  store : ∃ n, e'.store = e.store.withIterators n
  transactions : e'.transactions = e.transactions
  nextTransaction : e'.nextTransaction = e.nextTransaction
  healthy : e.faults = .healthy → e'.faults = .healthy

theorem Idles.refl (e : Engine) : e.Idles e := ⟨⟨_, rfl⟩, rfl, rfl, id⟩

theorem Idles.trans (h : e.Idles e') (h' : e'.Idles e'') : e.Idles e'' := by
  obtain ⟨n, hstore⟩ := h.store
  obtain ⟨n', hstore'⟩ := h'.store
  refine ⟨⟨n', by rw [hstore', hstore, Store.withIterators_withIterators]⟩, ?_, ?_, h'.healthy ∘ h.healthy⟩
  · rw [h'.transactions, h.transactions]
  · rw [h'.nextTransaction, h.nextTransaction]

theorem idles_drawn (e : Engine) (call : EngineCall) : e.Idles (e.drawn call) :=
  ⟨⟨_, rfl⟩, rfl, rfl, faults_drawn e call⟩

theorem idles_iterating (e : Engine) : e.Idles e.iterating := ⟨⟨_, rfl⟩, rfl, rfl, id⟩

theorem idles_releaseIterator (e : Engine) : e.Idles e.releaseIterator := ⟨⟨_, rfl⟩, rfl, rfl, id⟩

/-- An engine that idles is left steady. -/
theorem Idles.steady (h : e.Idles e') : e.Steady e' := by
  obtain ⟨n, hstore⟩ := h.store
  have hsteady : e.Steady { e with store := e'.store, faults := e'.faults } := by
    refine steady_of_alike h.healthy ?_ fun ns => ?_
    · rw [hstore]
      exact .of_tables_eq rfl rfl rfl rfl
    · rw [hstore]
      rfl
  have heq : e' = { e with store := e'.store, faults := e'.faults } := by
    rw [← h.transactions, ← h.nextTransaction]
  rwa [heq]

/-- An engine that idles keeps its ledger. -/
theorem Idles.ledger_eq (h : e.Idles e') : e'.ledger = e.ledger := by
  obtain ⟨n, hstore⟩ := h.store
  refine Ledger.ext ?_ (funext fun j => ?_)
  · show e'.store.read = e.store.read
    rw [hstore, Store.withIterators_read]
  · rw [ledger_pending, ledger_pending, h.transactions]

/-! ### Work -/

/-- One thing that is done within a transaction. -/
inductive Deed (allowed : Allowance) (id : TransactionId) (e : Engine) : Engine → Prop
  | idles {e' : Engine} (idles : e.Idles e') : Deed allowed id e e'
  | writes {ns : Namespace} {key : Bytes} {slot : Slot} {tx : Transaction}
    (permitted : allowed (ns, key) slot) (written : e.writtenTo id ns key slot = .ok tx) :
    Deed allowed id e (e.keeping id tx)

/-- Nothing was done but within a transaction, and nothing was written there but what is allowed. -/
def Works (allowed : Allowance) (id : TransactionId) : Engine → Engine → Prop :=
  Relation.ReflTransGen (Deed allowed id)

namespace Works

theorem refl (e : Engine) : Works allowed id e e := Relation.ReflTransGen.refl

theorem trans (h : Works allowed id e e') (h' : Works allowed id e' e'') : Works allowed id e e'' :=
  Relation.ReflTransGen.trans h h'

theorem of_idles (h : e.Idles e') : Works allowed id e e' := .single (.idles h)

/-- Work is allowed under every wider allowance. -/
theorem mono (h : Works allowed id e e') (himp : ∀ x slot, allowed x slot → allowed' x slot) :
    Works allowed' id e e' := by
  refine Relation.ReflTransGen.mono (fun a b hab => ?_) _ _ h
  cases hab with
  | idles hidles => exact .idles hidles
  | writes permitted written => exact .writes (himp _ _ permitted) written

/-- What every deed is, and what may be chained, is so of all work. -/
theorem chain {R : Engine → Engine → Prop} (hrefl : ∀ e, R e e)
    (htrans : ∀ {e e' e''}, R e e' → R e' e'' → R e e'')
    (hdeed : ∀ {e e'}, Deed allowed id e e' → R e e') (h : Works allowed id e e') : R e e' := by
  induction h with
  | refl => exact hrefl e
  | tail reached deed ih => exact htrans ih (hdeed deed)

/-- Work within a transaction leaves the engine steady. -/
theorem steady (h : Works allowed id e e') : e.Steady e' := by
  refine chain Steady.refl Steady.trans (fun hdeed => ?_) h
  cases hdeed with
  | idles hidles => exact hidles.steady
  | writes permitted written => exact steady_keeping written

/-- Work is a change of what its transaction has pending, of which every part is allowed. -/
theorem exists_changes (h : Works allowed id e e') :
    ∃ c, allowed.Admits c ∧ e'.ledger = e.ledger.write c (some id) := by
  refine chain (R := fun e e' => ∃ c, allowed.Admits c ∧ e'.ledger = e.ledger.write c (some id))
    (fun e => ⟨.nothing, allowed.admits_nothing, (Ledger.write_nothing _ _).symm⟩) ?_
    (fun hdeed => ?_) h
  · rintro e e' e'' ⟨c, hc, hledger⟩ ⟨c', hc', hledger'⟩
    exact ⟨c'.after c, hc.after hc', by rw [hledger', hledger, Ledger.write_write]⟩
  · cases hdeed with
    | idles hidles =>
      exact ⟨.nothing, allowed.admits_nothing, by rw [hidles.ledger_eq, Ledger.write_nothing]⟩
    | writes permitted written =>
      exact ⟨_, Allowance.admits_single permitted, ledger_keeping written⟩

end Works

/-- The store was left as it is, and so were the transactions but one, of which it was only its writes
that may have changed. -/
structure Keeps (id : TransactionId) (e e' : Engine) : Prop where
  store : ∃ n, e'.store = e.store.withIterators n
  others : ∀ j, j ≠ id → e'.transactions.get? j = e.transactions.get? j
  own : (e'.transactions.get? id).map Transaction.frame = (e.transactions.get? id).map Transaction.frame
  nextTransaction : e'.nextTransaction = e.nextTransaction

theorem Keeps.refl (id : TransactionId) (e : Engine) : e.Keeps id e :=
  ⟨⟨_, rfl⟩, fun _ _ => rfl, rfl, rfl⟩

theorem Keeps.trans (h : e.Keeps id e') (h' : e'.Keeps id e'') : e.Keeps id e'' := by
  obtain ⟨n, hstore⟩ := h.store
  obtain ⟨n', hstore'⟩ := h'.store
  exact ⟨⟨n', by rw [hstore', hstore, Store.withIterators_withIterators]⟩,
    fun j hj => (h'.others j hj).trans (h.others j hj), h'.own.trans h.own,
    h'.nextTransaction.trans h.nextTransaction⟩

/-- An engine that idles keeps every transaction. -/
theorem Idles.keeps (h : e.Idles e') : e.Keeps id e' :=
  ⟨h.store, fun _ _ => by rw [h.transactions], by rw [h.transactions], h.nextTransaction⟩

/-- A write keeps the store and all transactions but its own. -/
theorem keeps_keeping {ns : Namespace} {key : Bytes} {slot : Slot} {tx' : Transaction}
    (h : e.writtenTo id ns key slot = .ok tx') : e.Keeps id (e.keeping id tx') := by
  obtain ⟨tx, hopen, -, rfl⟩ := of_writtenTo h
  refine ⟨⟨_, rfl⟩, fun j hj => ?_, ?_, rfl⟩
  · show (e.transactions.insert id _).get? j = _
    rw [SortedMap.get?_insert, if_neg hj.symm]
  · show ((e.transactions.insert id _).get? id).map _ = _
    rw [SortedMap.get?_insert, if_pos rfl, hopen.1]
    rfl

/-- Work within a transaction keeps the store and all transactions but that one. -/
theorem Works.keeps (h : Works allowed id e e') : e.Keeps id e' := by
  refine chain (Keeps.refl id) Keeps.trans (fun hdeed => ?_) h
  cases hdeed with
  | idles hidles => exact hidles.keeps
  | writes permitted written => exact keeps_keeping written

end Engine

end SecondaryIndex
