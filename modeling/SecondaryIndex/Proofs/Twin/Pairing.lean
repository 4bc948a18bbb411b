import SecondaryIndex.Proofs.Index.History
import SecondaryIndex.Proofs.Twin.Engine

/-!
# Writes that come in pairs

A database whose index is a two-way index is compared with the same database without the reverse half. The
reverse namespace takes part in every commit, and it must not make one fail that would have gone through
without it. The reason that it does not is that every write to the reverse half has its like in the forward
half.

Whatever is kept by place is *paired* if it is the same at both entries of a pair
(`TwoWayIndex.Paired`). In an engine whose index writes in pairs (`Engine.Pairs`) this holds of the writes of
every open transaction, and of the last writes that the store remembers, whichever of them it has forgotten.
So a transaction that is refused for a reverse entry is refused for a forward entry as well
(`Paired.blocked_iff`).

`Engine.Twins` relates the two engines that are compared. Every call on the store keeps it that lets the
reverse namespace alone (`Twins.perform`).
-/

namespace SecondaryIndex

variable {K V : Type} {index : TwoWayIndex K V}

namespace TwoWayIndex

variable {X Y Z : Type}

/-- What is kept by place is the same at both entries of a pair, and is kept in the reverse namespace for
entries of pairs only. -/
structure Paired (index : TwoWayIndex K V) (F : Place → Option X) : Prop where
  eq : ∀ {key value p q}, index.forward.codec.encode key value = .ok p →
    index.reverse.codec.encode value key = .ok q → F (index.reverse.ns, q) = F (index.forward.ns, p)
  reverse_only : ∀ {q}, F (index.reverse.ns, q) ≠ none → ∃ key value p,
    index.forward.codec.encode key value = .ok p ∧ index.reverse.codec.encode value key = .ok q

/-- Where nothing is, everything has its counterpart. -/
theorem paired_none (index : TwoWayIndex K V) : index.Paired (fun _ => none : Place → Option X) :=
  ⟨fun _ _ => rfl, fun h => absurd rfl h⟩

/-- What is worked out place by place from what is paired is paired. -/
theorem Paired.combine {F : Place → Option X} {G : Place → Option Y} (hF : index.Paired F)
    (hG : index.Paired G) {f : Option X → Option Y → Option Z} (hf : f none none = none) :
    index.Paired fun x => f (F x) (G x) where
  eq hp hq := by rw [hF.eq hp hq, hG.eq hp hq]
  reverse_only {q} hq := by
    by_cases hFq : F (index.reverse.ns, q) = none
    · refine hG.reverse_only fun hGq => hq ?_
      rw [hFq, hGq, hf]
    · exact hF.reverse_only hFq

/-- Writes to pairs are paired. -/
theorem Sane.paired_changes (h : index.Sane) {c : Changes Place Bytes} {d : Changes (K × V) Unit}
    (hc : index.presentation.changes c d) : index.Paired c where
  eq {key value p q} hp hq := by
    have hpair : index.forward.codec.pair? p = some (key, value) :=
      (EntryCodec.pair?_eq_some_iff h.forward).2 hp
    have hpair' : index.reverse.codec.pair? q = some (value, key) :=
      (EntryCodec.pair?_eq_some_iff h.reverse).2 hq
    rw [hc.1.entry p, hc.2.entry q, hpair, hpair']
    rfl
  reverse_only {q} hq := by
    cases hpair : index.reverse.codec.pair? q with
    | none =>
      rw [hc.2.entry q, hpair] at hq
      exact absurd rfl hq
    | some vk =>
      obtain ⟨value, key⟩ := vk
      have hwritten : (d (key, value)).isSome := by
        rw [hc.2.entry q, hpair] at hq
        rw [Option.isSome_iff_ne_none]
        intro hnone
        refine hq ?_
        show (d (key, value)).map _ = none
        rw [hnone]
        rfl
      -- a pair that is written has short parts, so that it has a forward entry
      obtain ⟨p, hp⟩ := EntryCodec.exists_encode (hc.1.fits _ hwritten) value
      exact ⟨key, value, p, hp, (EntryCodec.pair?_eq_some_iff h.reverse).1 hpair⟩

section Blocked

variable {tx tx' : Transaction} {s s' : Store}

/-- A transaction whose writes are paired writes in the forward namespace if it writes at all. -/
theorem Paired.changes_eq_nothing_iff (h : index.Paired tx'.changes)
    (hapart : index.forward.ns ≠ index.reverse.ns) (htx : tx.AlikeBut index.reverse.ns tx') :
    tx'.changes = .nothing ↔ tx.changes = .nothing := by
  constructor
  · intro hnone
    funext x
    obtain ⟨ns, key⟩ := x
    by_cases hns : ns = index.reverse.ns
    · rw [hns, htx.changes_spared]
      rfl
    · rw [← htx.changes hns, hnone]
  · intro hnone
    funext x
    obtain ⟨ns, q⟩ := x
    by_cases hns : ns = index.reverse.ns
    · subst hns
      by_contra hwritten
      obtain ⟨key, value, p, hp, hq⟩ := h.reverse_only hwritten
      rw [h.eq hp hq, htx.changes hapart, hnone] at hwritten
      exact hwritten rfl
    · rw [htx.changes hns, hnone]

/-- Where last writes are paired as well, a transaction that is blocked in the reverse namespace is blocked in
the forward namespace, too. -/
theorem Paired.blocked_iff (h : index.Paired tx'.changes) (hlast : index.Paired s'.lastWrite?)
    (hapart : index.forward.ns ≠ index.reverse.ns) (htx : tx.AlikeBut index.reverse.ns tx')
    (hs : s.AlikeBut index.reverse.ns s') : tx'.Blocked s' ↔ tx.Blocked s := by
  have hsame {x : Place} (hx : x.1 ≠ index.reverse.ns) :
      tx'.changes x ≠ none ∧ s'.WrittenAfter tx'.start x ↔
        tx.changes x ≠ none ∧ s.WrittenAfter tx.start x := by
    unfold Store.WrittenAfter
    rw [htx.changes hx, hs.lastWrite? hx, htx.start]
  constructor
  · rintro ⟨⟨ns, q⟩, hwritten, hafter⟩
    by_cases hns : ns = index.reverse.ns
    · subst hns
      obtain ⟨key, value, p, hp, hq⟩ := h.reverse_only hwritten
      -- the forward entry of the pair was written by both as well
      rw [h.eq hp hq] at hwritten
      unfold Store.WrittenAfter at hafter
      rw [hlast.eq hp hq] at hafter
      exact ⟨(index.forward.ns, p), (hsame hapart).1 ⟨hwritten, hafter⟩⟩
    · exact ⟨(ns, q), (hsame hns).1 ⟨hwritten, hafter⟩⟩
  · rintro ⟨⟨ns, key⟩, hwritten, hafter⟩
    have hns : ns ≠ index.reverse.ns := by
      rintro rfl
      exact hwritten (htx.changes_spared key)
    exact ⟨(ns, key), (hsame hns).2 ⟨hwritten, hafter⟩⟩

end Blocked

end TwoWayIndex

/-! ### Engines in which an index writes in pairs -/

namespace Engine

open Program

variable {e e' e₁ e₁' : Engine} {id : TransactionId} {tx tx' : Transaction}
  {event? : Option (LedgerEvent Place Bytes)}

/-- An engine that keeps its books, and in which all that was written of an index was written in pairs: what is
committed, what is pending, and what is remembered of last writes. -/
structure Pairs (index : TwoWayIndex K V) (e : Engine) : Prop where
  sound : e.Sound
  holds : ∃ pairs, index.presentation.Holds (fun _ => True) e.ledger pairs
  written : index.Paired e.store.lastWrite?

/-- A store in which nothing was written holds nothing but pairs. -/
theorem pairs_ofOptions (index : TwoWayIndex K V) (options : StoreOptions) :
    (ofOptions options).Pairs index where
  sound := sound_ofOptions options
  holds := ⟨.empty, (AnyIndex.twoWay index).views_empty, fun _ => rfl, fun _ hc => nomatch hc⟩
  written := index.paired_none

namespace Pairs

variable (h : e.Pairs index)

include h

/-- What a transaction has written comes to pairs. -/
theorem paired_changes (hsane : index.Sane) (hopen : e.HasOpen id tx) : index.Paired tx.changes := by
  obtain ⟨pairs, hholds⟩ := h.holds
  have hpending := hopen.pending
  have hsome : (pairs.pending id).isSome := by
    rw [← hholds.isSome id, hpending]
    rfl
  obtain ⟨d, hd⟩ := Option.isSome_iff_exists.1 hsome
  exact hsane.paired_changes (hholds.pending trivial hpending hd)

/-- A commit records its writes under one number and forgets by number, so that what is remembered stays
paired. -/
theorem paired_install (hsane : index.Sane) (hopen : e.HasOpen id tx) :
    index.Paired (e.store.install tx.writes).lastWrite? := by
  have hlast (x : Place) : (e.store.install tx.writes).lastWrite? x =
      (if (tx.changes x).isSome then some (e.store.lastCommit + 1) else e.store.lastWrite? x).filter
        fun seq => ({ e.store with lastCommit := e.store.lastCommit + 1 } : Store).horizon < seq := by
    rw [Store.lastWrite?_install]
    unfold Store.lastWrite?
    cases htable : e.store.tables.get? x.1 with
    | some table => rfl
    | none =>
      -- nothing was written where there is no table
      have hnone : tx.changes x = none := by
        by_contra hwritten
        obtain ⟨table, hsome⟩ := h.sound.exists_table hopen hwritten
        rw [htable] at hsome
        cases hsome
      rw [hnone]
      rfl
  have hcombined := (h.paired_changes hsane hopen).combine h.written
    (f := fun written last => (if written.isSome then some (e.store.lastCommit + 1) else last).filter
      fun seq => ({ e.store with lastCommit := e.store.lastCommit + 1 } : Store).horizon < seq) rfl
  rwa [← funext hlast] at hcombined

/-- Every move keeps the writes paired that does not write to the namespaces of the index itself. -/
theorem move (hsane : index.Sane) (hmove : Moves e event? e')
    (helsewhere : ∀ id x slot, event? = some (.writes id x slot) →
      x.1 ∉ (AnyIndex.twoWay index).namespaces) : e'.Pairs index := by
  classical
  obtain ⟨pairs, hholds⟩ := h.holds
  have hbefore : (AnyIndex.twoWay index).presentation.Holds (fun _ => True) e.ledger pairs := hholds
  refine ⟨h.sound.move hmove, ⟨_, AnyIndex.holds_move hbefore hmove helsewhere (fun _ _ => trivial)
    fun _ _ _ => trivial⟩, ?_⟩
  -- last writes are recorded by commits alone
  cases hmove with
  | rearranges healthy alike =>
    show index.Paired _
    rw [alike.lastWrite?_eq]
    exact h.written
  | begins healthy => exact h.written
  | writes healthy written => exact h.written
  | commitsNothing healthy hopen nothing => exact h.written
  | commits healthy hopen something applied =>
    obtain ⟨-, rfl⟩ := Store.apply_eq_ok_iff.1 applied
    exact h.paired_install hsane hopen
  | closes healthy hopen => exact h.written
  | drops id =>
    rcases store_discard e id with ⟨tx, -, hstore⟩ | ⟨-, hstore⟩ <;> rw [hstore]
    exacts [h.written, h.written]

/-- Work within a transaction that comes to writes to pairs. -/
theorem worked {allowed : Allowance} {c : Changes Place Bytes} {d : Changes (K × V) Unit}
    (hworks : Works allowed id e e') (hledger : e'.ledger = e.ledger.write c (some id))
    (hc : index.presentation.changes c d) : e'.Pairs index := by
  obtain ⟨pairs, hholds⟩ := h.holds
  refine ⟨hworks.steady.sound h.sound, ⟨pairs.write d (some id), ?_⟩, ?_⟩
  · rw [hledger]
    exact hholds.write hc (some id)
  · obtain ⟨n, hstore⟩ := hworks.keeps.store
    rw [hstore]
    exact h.written

end Pairs

/-- An engine without the reverse half of an index, and one with it, in which some namespaces are there. -/
structure Twins (index : TwoWayIndex K V) (spaces : List Namespace) (e e' : Engine) : Prop where
  alike : e.AlikeBut index.reverse.ns e'
  sound : e.Sound
  pairs : e'.Pairs index
  there : ∀ ns ∈ spaces, e'.store.hasNamespace ns = true

theorem twins_ofOptions (index : TwoWayIndex K V) (options : StoreOptions) :
    Twins index [] (ofOptions options) (ofOptions options) :=
  ⟨alikeBut_ofOptions _ options, sound_ofOptions options, pairs_ofOptions index options, nofun⟩

namespace Twins

variable {spaces : List Namespace} (h : Twins index spaces e e')

include h

/-- In the second one of two twins nothing is in the way either. -/
theorem ready : e'.Ready spaces := ⟨h.alike.healthy', h.there⟩

/-- Commits of one transaction are applied in both or refused in both. -/
theorem commit (hsane : index.Sane) (id : TransactionId) :
    SameOrConflict ((Engine.commit id).run e).1 ((Engine.commit id).run e').1 ∧
      ((Engine.commit id).run e).2.AlikeBut index.reverse.ns ((Engine.commit id).run e').2 := by
  rw [run_commit, run_commit, fails_of_healthy e .commit h.alike.healthy,
    fails_of_healthy e' .commit h.alike.healthy', h.alike.drawn_eq, h.alike.drawn_eq']
  have hheld := h.alike.held id
  generalize htx : e.held id = held at hheld
  generalize htx' : e'.held id = held' at hheld
  cases hheld with
  | error err => exact ⟨.same _, h.alike⟩
  | @ok tx tx' hsame =>
    have hget := held_eq_ok_iff.1 htx
    have hget' := held_eq_ok_iff.1 htx'
    show SameOrConflict (tx.commit e.store).1 (tx'.commit e'.store).1 ∧
      (e.ended id tx Transaction.commit).AlikeBut index.reverse.ns
        (e'.ended id tx' Transaction.commit)
    cases hfin : tx.finished with
    | true =>
      -- a transaction that has ended stays as it is
      have hfin' := hsame.finished.trans hfin
      have hc : tx.commit e.store = (.error .transactionClosed, tx, e.store) := if_pos hfin
      have hc' : tx'.commit e'.store = (.error .transactionClosed, tx', e'.store) := if_pos hfin'
      refine ⟨?_, h.alike.ended ?_ ?_ id⟩ <;> rw [hc, hc']
      exacts [.same _, hsame, h.alike.store]
    | false =>
      have hopen : e.HasOpen id tx := ⟨hget, hfin⟩
      have hopen' : e'.HasOpen id tx' := ⟨hget', hsame.finished.trans hfin⟩
      have hpaired := h.pairs.paired_changes hsane hopen'
      exact h.alike.commit h.sound h.pairs.sound hopen hopen' hsame
        (hpaired.changes_eq_nothing_iff hsane.apart hsame)
        (hpaired.blocked_iff h.pairs.written hsane.apart hsame h.alike.store)

/-- A call that lets the reverse namespace alone, and does not write to the forward one, is answered alike, but
for the namespace in which a commit is refused. -/
theorem perform (hsane : index.Sane) {call : StoreCall}
    (htarget : ∀ ns, call.target? = some ns → ns ∉ (AnyIndex.twoWay index).namespaces)
    (htouched : ∀ ns, call.touched? = some ns → ns ≠ index.reverse.ns) :
    SameOrConflict ((Engine.perform call).run e).1 ((Engine.perform call).run e').1 ∧
      Twins index spaces ((Engine.perform call).run e).2 ((Engine.perform call).run e').2 := by
  have halike : SameOrConflict ((Engine.perform call).run e).1 ((Engine.perform call).run e').1 ∧
      ((Engine.perform call).run e).2.AlikeBut index.reverse.ns ((Engine.perform call).run e').2 := by
    by_cases hcommit : ∃ id, call = .commit id
    · obtain ⟨id, rfl⟩ := hcommit
      obtain ⟨houtcome, halike⟩ := h.commit hsane id
      simp only [Engine.perform, run_map]
      exact ⟨houtcome.map _, halike⟩
    · obtain ⟨hanswer, halike⟩ :=
        AlikeBut.tracks_perform (fun id heq => hcommit ⟨id, heq⟩) htouched e e' h.alike
      rw [hanswer.eq]
      exact ⟨.same _, halike⟩
  have hmove := moves_perform e call
  have hmove' := moves_perform e' call
  refine ⟨halike.1, halike.2, h.sound.move hmove, h.pairs.move hsane hmove' fun id x slot hevent => ?_,
    fun ns hns => hmove'.persists.hasNamespace (h.there ns hns)⟩
  exact htarget x.1 (StoreCall.target?_of_writes hevent)

end Twins

end Engine

end SecondaryIndex
