import Wildbloom.CheckoutInvariant
import Mathlib.Tactic

/-!
# Every step of the checkout keeps its ledger sound

One lemma for each change of the ledger and for each list that records a
request, and from them one lemma for each step of an operation.
-/

namespace Wildbloom
namespace Checkout

open Runs KeyedTables

variable {Text : Type} {rules : Rules Text} {state after : State Text} {id : Text}
  {row found : Row Text}

/-! ## Rows -/

structure Row.Alike (row found : Row Text) : Prop where
  quote : found.quote = row.quote
  hash : found.paymentHash = row.paymentHash
  note : found.noteId = row.noteId
  rotation : found.rotation = row.rotation
  settlement : found.settlement = row.settlement

section

variable (hok : RowOk rules state id row)
include hok

theorem RowOk.refund_eq_none (hrequired : row.state ≠ .refundRequired)
    (hrefunded : row.state ≠ .refunded) : row.refund = none := by
  by_contra hrefund
  rcases hok.refund hrefund with hstate | hstate
  · exact hrequired hstate
  · exact hrefunded hstate

theorem RowOk.not_activated (hsettled : row.state ≠ .settled) (hactive : row.state ≠ .active) :
    id ∉ state.activated := by
  intro hmem
  rcases hok.activated hmem with hstate | hstate
  · exact hsettled hstate
  · exact hactive hstate

theorem RowOk.not_melted (hrefund : row.refund = none) : ∀ sent ∈ state.melts, sent.id ≠ id := by
  intro sent hsent heq
  have hurl := hok.melted sent hsent heq
  rw [Row.meltUrl, hrefund] at hurl
  cases hurl

theorem RowOk.not_rotated (hearly : row.state.early = true) :
    ∀ sent ∈ state.rotations, sent.id ≠ id := by
  intro sent hsent heq
  have hurl := hok.rotated sent hsent heq
  rw [Row.rotationUrl, (hok.note hearly).2] at hurl
  cases hurl

end

theorem Settled.alike (hsettled : Settled rules state id row)
    (halike : row.Alike found) : Settled rules state id found := by
  obtain ⟨reference, evidence, hsettlement, hmem, hproves⟩ := hsettled
  refine ⟨reference, evidence, halike.settlement.trans hsettlement, hmem, ?_⟩
  cases evidence with
  | preimage bytes =>
    simpa only [Evidence.Proves, halike.hash] using hproves
  | certificate signature =>
    simpa only [Evidence.Proves, halike.rotation, halike.quote] using hproves

/-- A row goes from one state to another and nothing becomes attached. -/
theorem RowOk.restate (hok : RowOk rules state id row) (halike : row.Alike found)
    (hpaid : found.state.paid = row.state.paid)
    (hhash : found.state.early = true ∨ found.state = .invoicePending →
      row.state.early = true ∨ row.state = .invoicePending)
    (hnote : found.state.early = true → row.state.early = true)
    (hrefund : found.refund ≠ none → found.state = .refundRequired ∨ found.state = .refunded)
    (hactivated : id ∈ state.activated → found.state = .settled ∨ found.state = .active)
    (hcreated : id ∈ state.created → found.state.early = false)
    (hmelted : ∀ sent ∈ state.melts, sent.id = id → found.meltUrl = some sent.url) :
    RowOk rules state id found where
  paid := fun h => (hok.paid (hpaid ▸ h)).alike halike
  unpaid := fun h => halike.settlement.trans (hok.unpaid (hpaid ▸ h))
  hash := fun h => halike.hash.trans (hok.hash (hhash h))
  note := fun h => ⟨halike.note.trans (hok.note (hnote h)).1,
    halike.rotation.trans (hok.note (hnote h)).2⟩
  refund := hrefund
  activated := hactivated
  created := hcreated
  rotated := by
    rw [Row.rotationUrl, halike.rotation]
    exact hok.rotated
  melted := hmelted

theorem RowOk.unpaid_state (hok : RowOk rules state id row)
    {new : OrderState} (hpaid : row.state.paid = false)
    (hnew : new.paid = false) (hearly : row.state.early = true) (hcreated : id ∉ state.created) :
    RowOk rules state id { row with state := new } := by
  have hrefund : row.refund = none := by
    apply hok.refund_eq_none <;> intro h <;> rw [h] at hpaid <;> cases hpaid
  have hactivated : id ∉ state.activated := by
    apply hok.not_activated <;> intro h <;> rw [h] at hpaid <;> cases hpaid
  refine hok.restate ⟨rfl, rfl, rfl, rfl, rfl⟩ (hnew.trans hpaid.symm)
    (fun _ => .inl hearly) (fun _ => hearly) (fun h => absurd hrefund h)
    (fun h => absurd h hactivated) (fun h => absurd h hcreated) ?_
  intro sent hsent heq
  exact absurd heq (hok.not_melted hrefund sent hsent)

variable [DecidableEq Text] {old : OrderState} {change : Row Text → Row Text}

/-! ## The ledger's writes -/

section

variable {ledger after : Ledger Text}

theorem Ledger.update_eq_some :
    ledger.update id old change = some after ↔
      ∃ row, ledger.lookup id = some row ∧ row.state = old ∧
        after = ledger.insert id (change row) := by
  unfold Ledger.update
  split
  next row hrow =>
    simp [hrow, eq_comm]
  next hrow => simp [hrow]

theorem Ledger.another_eq_false {test : Row Text → Bool} (hnone : ledger.another id test = false)
    {other : Text} (hne : other ≠ id) (hrow : ledger.lookup other = some row) :
    test row = false := by
  rw [Ledger.another, List.any_eq_false] at hnone
  have hentry := hnone ⟨other, row⟩ (AList.mem_lookup_iff.mp hrow)
  simpa [hne] using hentry

end

theorem Sound.update (hsound : Sound rules state) {next : State Text → State Text}
    {task : Option (Pc Text)}
    (hnext : ∀ ledger, next { state with ledger := ledger } =
      { state with ledger := ledger, task := task })
    (halike : ∀ row : Row Text, row.Alike (change row))
    (hok : ∀ row, state.ledger.lookup id = some row → row.state = old →
      RowOk rules state id row → RowOk rules state id (change row))
    (htask : ∀ row, state.ledger.lookup id = some row → row.state = old →
      TaskOk rules { state with ledger := state.ledger.insert id (change row), task := task }) :
    Next rules state (state.write (state.ledger.update id old change) next) := by
  apply hsound.write
  intro ledger hledger
  obtain ⟨row, hrow, hstate, rfl⟩ := Ledger.update_eq_some.mp hledger
  rw [hnext]
  exact hsound.amend hrow (halike row).hash (halike row).note
    (halike row).settlement (hok row hrow hstate (hsound.rows id row hrow)) (htask row hrow hstate)

/-! ## Steps that write the ledger -/

variable {next : State Text → State Text} {task : Option (Pc Text)} {pc : Pc Text} {hash : Text}

theorem TaskOk.none (htask : state.task = none) : TaskOk rules state := by
  intro pc hpc
  rw [htask] at hpc
  cases hpc

theorem TaskOk.some (htask : state.task = some pc) (hok : PcOk rules state pc) :
    TaskOk rules state := by
  intro other hother
  rw [htask, Option.some.injEq] at hother
  exact hother ▸ hok

section

variable (hsound : Sound rules state)
include hsound

theorem Sound.insertOrder (hreserving : row.state = .reserving)
    (hhash : row.paymentHash = none) (hnote : row.noteId = none) (hrotation : row.rotation = none)
    (hsettlement : row.settlement = none) (hrefund : row.refund = none) :
    Next rules state (state.write (state.ledger.insertOrder row)
      fun state => state.goto (.reserve id)) := by
  apply hsound.write
  intro ledger hledger
  unfold Ledger.insertOrder at hledger
  split at hledger
  · cases hledger
    exact hsound.goto trivial
  next habsent =>
    obtain ⟨-, hinsert⟩ := Option.ite_none_right_eq_some.mp hledger
    cases hinsert
    have hfresh : ¬ state.Logged row.quote.orderId := by
      intro hlogged
      obtain ⟨old, hold⟩ := hsound.known _ hlogged
      rw [habsent] at hold
      cases hold
    refine hsound.change rfl rfl rfl rfl rfl (fun _ h => h) ?_ ?_ ?_ (.some rfl trivial)
    · exact {
        paid := by simp [hreserving, OrderState.paid]
        unpaid := fun _ => hsettlement
        hash := fun _ => hhash
        note := fun _ => ⟨hnote, hrotation⟩
        refund := fun h => absurd hrefund h
        activated := fun h => absurd (.inl h) hfresh
        created := fun h => absurd (.inr (.inl h)) hfresh
        rotated := fun sent hsent heq =>
          absurd (.inr (.inr (.inl ⟨sent, hsent, heq⟩))) hfresh
        melted := fun sent hsent heq =>
          absurd (.inr (.inr (.inr ⟨sent, hsent, heq⟩))) hfresh }
    · intro other old _ _
      exact ⟨by simp [hhash], by simp [hnote], by simp [hsettlement]⟩
    · intro old hold
      rw [habsent] at hold
      cases hold

/-- An order that no invoice was asked for moves between unpaid states. -/
theorem Sound.early {new : OrderState}
    (hnext : ∀ ledger, next { state with ledger := ledger } =
      { state with ledger := ledger, task := task }) (hearly : old.early = true)
    (hnew : new.paid = false)
    (htask : ∀ row, state.ledger.lookup id = some row → row.state = old →
      TaskOk rules { state with
        ledger := state.ledger.insert id { row with state := new },
        task := task }) : Next rules state (state.write (state.ledger.state id old new) next) := by
  refine hsound.update hnext (fun _ => ⟨rfl, rfl, rfl, rfl, rfl⟩) ?_ htask
  intro row _ hstate hok
  have hrow : row.state.early = true := hstate ▸ hearly
  refine hok.unpaid_state ?_ hnew hrow ?_
  · rw [hstate]
    cases old <;> first | rfl | cases hearly
  · intro hmem
    rw [hok.created hmem] at hrow
    cases hrow

theorem Sound.attachInvoice {bolt11 : Text} :
    Next rules state (state.write (state.ledger.attachInvoice id bolt11 hash) State.done) := by
  apply hsound.write
  intro ledger hledger
  obtain ⟨hfresh, hledger⟩ := Option.ite_none_left_eq_some.mp hledger
  obtain ⟨row, hrow, hstate, rfl⟩ := Ledger.update_eq_some.mp hledger
  have hok := hsound.rows id row hrow
  have hrefund : row.refund = none :=
    hok.refund_eq_none (by simp [hstate]) (by simp [hstate])
  have hactivated : id ∉ state.activated :=
    hok.not_activated (by simp [hstate]) (by simp [hstate])
  have hunpaid : row.settlement = none :=
    hok.unpaid (by rw [hstate]; rfl)
  have hunset : row.paymentHash = none := hok.hash (.inr hstate)
  refine hsound.change rfl rfl rfl rfl rfl (fun _ h => h) ?_ ?_ ?_ (.none rfl)
  · exact {
      paid := (by rintro ⟨⟩)
      unpaid := fun _ => hunpaid
      hash := by rintro (h | h) <;> cases h
      note := (by rintro ⟨⟩)
      refund := fun h => absurd hrefund h
      activated := fun h => absurd h hactivated
      created := fun _ => rfl
      rotated := hok.rotated
      melted := fun sent hsent heq =>
        absurd heq (hok.not_melted hrefund sent hsent) }
  · intro other old hne hold
    have hapart := hsound.apart other id old row hold hrow hne
    refine ⟨?_, hapart.note, hapart.settlement⟩
    rintro _ hother ⟨⟩
    have := Ledger.another_eq_false (Bool.eq_false_iff.mpr hfresh) hne hold
    exact of_decide_eq_false this hother
  · intro old hold
    rw [hrow, Option.some.injEq] at hold
    subst hold
    refine ⟨?_, fun _ h => h, fun _ h => h⟩
    intro _ hset
    rw [hunset] at hset
    cases hset

theorem Sound.journal {quote : Quote Text} {identity : Text} {rotation : Rotation Text}
    (hpc : ∃ row, state.ledger.lookup id = some row ∧ row.quote = quote) :
    Next rules state (state.write (state.ledger.rotate id identity rotation)
      fun state => state.goto (.rotate id quote rotation)) := by
  apply hsound.write
  intro ledger hledger
  obtain ⟨hfresh, hledger⟩ := Option.ite_none_left_eq_some.mp hledger
  obtain ⟨row, hrow, hstate, rfl⟩ := Ledger.update_eq_some.mp hledger
  obtain ⟨_, hsame, hquote⟩ := hpc
  rw [hrow, Option.some.injEq] at hsame
  subst hsame
  have hok := hsound.rows id row hrow
  have hearly : row.state.early = true := by rw [hstate]; rfl
  have hrefund : row.refund = none :=
    hok.refund_eq_none (by simp [hstate]) (by simp [hstate])
  refine hsound.change rfl rfl rfl rfl rfl (fun _ h => h) ?_ ?_ ?_
    (.some rfl ⟨_, AList.lookup_insert _, hquote, rfl⟩)
  · exact {
      paid := (by rintro ⟨⟩)
      unpaid := fun _ => hok.unpaid (by rw [hstate]; rfl)
      hash := fun _ => hok.hash (.inl hearly)
      note := (by rintro ⟨⟩)
      refund := fun h => absurd hrefund h
      activated := fun h => absurd h (hok.not_activated (by simp [hstate]) (by simp [hstate]))
      created := fun _ => rfl
      rotated := fun sent hsent heq =>
        absurd heq (hok.not_rotated hearly sent hsent)
      melted := fun sent hsent heq =>
        absurd heq (hok.not_melted hrefund sent hsent) }
  · intro other old hne hold
    have hapart := hsound.apart other id old row hold hrow hne
    refine ⟨hapart.hash, ?_, hapart.settlement⟩
    rintro _ hother ⟨⟩
    apply hfresh
    rw [List.any_eq_true]
    exact ⟨⟨other, old⟩, AList.mem_lookup_iff.mp hold, decide_eq_true hother⟩
  · intro old hold
    rw [hrow, Option.some.injEq] at hold
    subst hold
    refine ⟨fun _ h => h, ?_, fun _ h => h⟩
    intro _ hset
    rw [(hok.note hearly).1] at hset
    cases hset

theorem Sound.settle {reference : Reference Text} {rotation : Option (Rotation Text)}
    {evidence : Evidence Text} (hrow : state.ledger.lookup id = some row)
    (hunpaid : old.paid = false)
    (hproves : evidence.Proves rules { row with
      state := .settled, settlement := some reference,
      rotation := rotation.or row.rotation } reference)
    (hjournal : (rotation.or row.rotation).map Rotation.requestUrl = row.rotationUrl) :
    Next rules state (state.write (state.ledger.settle id old reference rotation)
        fun state =>
          { state with evidence := (id, evidence) :: state.evidence
          }.goto (.fulfil id)) := by
  apply hsound.write
  intro ledger hledger
  obtain ⟨hfresh, hledger⟩ := Option.ite_none_left_eq_some.mp hledger
  obtain ⟨_, hsame, hstate, rfl⟩ := Ledger.update_eq_some.mp hledger
  rw [hrow, Option.some.injEq] at hsame
  subst hsame
  have hok := hsound.rows id row hrow
  have hpaid : row.state.paid = false := hstate ▸ hunpaid
  have hrefund : row.refund = none := by
    apply hok.refund_eq_none <;> intro h <;> rw [h] at hpaid <;> cases hpaid
  refine hsound.change rfl rfl rfl rfl rfl
    (fun _ h => List.mem_cons_of_mem _ h) ?_ ?_ ?_
    (.some rfl ⟨_, AList.lookup_insert _, rfl⟩)
  · exact {
      paid := fun _ => ⟨reference, evidence, rfl, List.mem_cons_self, hproves⟩
      unpaid := (by rintro ⟨⟩)
      hash := by rintro (h | h) <;> cases h
      note := (by rintro ⟨⟩)
      refund := fun h => absurd hrefund h
      activated := fun _ => .inl rfl
      created := fun _ => rfl
      rotated := fun sent hsent heq =>
        hjournal.trans (hok.rotated sent hsent heq)
      melted := fun sent hsent heq =>
        absurd heq (hok.not_melted hrefund sent hsent) }
  · intro other old hne hold
    have hapart := hsound.apart other id old row hold hrow hne
    refine ⟨hapart.hash, hapart.note, ?_⟩
    rintro _ hother ⟨⟩
    have := Ledger.another_eq_false (Bool.eq_false_iff.mpr hfresh) hne hold
    exact of_decide_eq_false this hother
  · intro old hold
    rw [hrow, Option.some.injEq] at hold
    subst hold
    refine ⟨fun _ h => h, fun _ h => h, ?_⟩
    intro _ hset
    rw [hok.unpaid hpaid] at hset
    cases hset

theorem Sound.activate {receipt : Receipt Text} : Next rules state
      (state.write (state.ledger.activate id receipt) State.done) := by
  refine hsound.update (fun _ => rfl) (fun _ => ⟨rfl, rfl, rfl, rfl, rfl⟩) ?_ fun _ _ _ => .none rfl
  intro row _ hstate hok
  have hrefund : row.refund = none :=
    hok.refund_eq_none (by simp [hstate]) (by simp [hstate])
  refine hok.restate ⟨rfl, rfl, rfl, rfl, rfl⟩ (by rw [hstate]; rfl)
    (by rintro (h | h) <;> cases h) (by rintro ⟨⟩) (fun h => absurd hrefund h)
    (fun _ => .inr rfl) (fun _ => rfl) ?_
  intro sent hsent heq
  exact absurd heq (hok.not_melted hrefund sent hsent)

theorem Sound.refuse (hnever : id ∉ state.activated) : Next rules state
      (state.write (state.ledger.state id .settled .refundRequired) State.done) := by
  refine hsound.update (fun _ => rfl) (fun _ => ⟨rfl, rfl, rfl, rfl, rfl⟩) ?_ fun _ _ _ => .none rfl
  intro row _ hstate hok
  exact hok.restate ⟨rfl, rfl, rfl, rfl, rfl⟩ (by rw [hstate]; rfl)
    (by rintro (h | h) <;> cases h) (by rintro ⟨⟩) (fun _ => .inl rfl)
    (fun h => absurd h hnever) (fun _ => rfl) hok.melted

/-- An order whose refund is due keeps what its journal says was sent. -/
theorem Sound.refunding {refund : RefundJournal Text}
    (hnext : ∀ ledger, next { state with ledger := ledger } =
      { state with ledger := ledger, task := task })
    (halike : ∀ row : Row Text, row.Alike (change row))
    (hrefund : ∀ row, (change row).refund = some refund)
    (hstate : ∀ row, row.state = .refundRequired →
      (change row).state = .refundRequired ∨ (change row).state = .refunded)
    (hmelted : ∀ row, state.ledger.lookup id = some row →
      RowOk rules state id row → ∀ sent ∈ state.melts, sent.id = id → refund.requestUrl = sent.url)
    (htask : ∀ pc, task = some pc → ∀ row : Row Text, row.meltUrl = some refund.requestUrl →
      PcOk rules { state with ledger := state.ledger.insert id row, task := task } pc) :
    Next rules state (state.write (state.ledger.update id .refundRequired change) next) := by
  have hurl : ∀ row, (change row).meltUrl = some refund.requestUrl := by
    intro row
    rw [Row.meltUrl, hrefund]
    rfl
  refine hsound.update hnext halike ?_ ?_
  · intro row hrow hrequired hok
    have hnever : id ∉ state.activated :=
      hok.not_activated (by simp [hrequired]) (by simp [hrequired])
    refine hok.restate (halike row) ?_ ?_ ?_ (fun _ => hstate row hrequired)
      (fun h => absurd h hnever) ?_ ?_
    case refine_5 =>
      intro sent hsent heq
      rw [hurl, hmelted row hrow hok sent hsent heq]
    all_goals rcases hstate row hrequired with h | h <;>
      simp [h, hrequired, OrderState.paid, OrderState.early]
  · intro row _ _ pc hpc
    exact htask pc hpc _ (hurl row)

end

/-! ## What is recorded of requests -/

section

variable (hsound : Sound rules state) (hrow : state.ledger.lookup id = some row)
include hsound hrow

theorem Sound.record (hledger : after.ledger = state.ledger)
    (hlogged : ∀ other, after.Logged other → other = id ∨ state.Logged other)
    (hok : ∀ other row, state.ledger.lookup other = some row →
      RowOk rules state other row → RowOk rules after other row) (honce : after.created.Nodup)
    (hjournalled : ∀ sent, sent ∈ after.rotations ∨ sent ∈ after.melts →
      sent.journalled = some sent.url) : Sound rules after where
  rows := by
    rw [hledger]
    intro other found hfound
    exact hok other found hfound (hsound.rows other found hfound)
  known := by
    rw [hledger]
    intro other hother
    rcases hlogged other hother with rfl | hold
    · exact ⟨row, hrow⟩
    · exact hsound.known other hold
  once := honce
  journalled := hjournalled
  apart := by
    rw [hledger]
    exact hsound.apart

theorem Sound.asked (hnew : id ∉ state.created) (hbegun : row.state.early = false) :
    Sound rules { state with created := id :: state.created } := by
  refine hsound.record hrow rfl ?_ ?_ (List.nodup_cons.mpr ⟨hnew, hsound.once⟩) hsound.journalled
  · rintro other (h | h | h)
    · exact .inr (.inl h)
    · exact (List.mem_cons.mp h).imp_right fun h => .inr (.inl h)
    · exact .inr (.inr (.inr h))
  · intro other found hfound hok
    refine ⟨hok.paid, hok.unpaid, hok.hash, hok.note, hok.refund,
      hok.activated, ?_, hok.rotated, hok.melted⟩
    intro hmem
    rcases List.mem_cons.mp hmem with rfl | hmem
    · rw [hrow, Option.some.injEq] at hfound
      exact hfound ▸ hbegun
    · exact hok.created hmem

theorem Sound.sendRotation {url : Text} (hurl : row.rotationUrl = some url) :
    Sound rules { state with
      rotations :=
        { id := id
          url := url
          journalled := (state.ledger.lookup id).bind Row.rotationUrl } ::
            state.rotations } := by
  refine hsound.record hrow rfl ?_ ?_ hsound.once ?_
  · rintro other (h | h | ⟨sent, hsent, heq⟩ | h)
    · exact .inr (.inl h)
    · exact .inr (.inr (.inl h))
    · rcases List.mem_cons.mp hsent with rfl | hsent
      · exact .inl heq.symm
      · exact .inr (.inr (.inr (.inl ⟨sent, hsent, heq⟩)))
    · exact .inr (.inr (.inr (.inr h)))
  · intro other found hfound hok
    refine ⟨hok.paid, hok.unpaid, hok.hash, hok.note, hok.refund,
      hok.activated, hok.created, ?_, hok.melted⟩
    intro sent hsent heq
    rcases List.mem_cons.mp hsent with rfl | hsent
    · subst heq
      rw [hrow, Option.some.injEq] at hfound
      exact hfound ▸ hurl
    · exact hok.rotated sent hsent heq
  · rintro sent (hsent | hsent)
    · rcases List.mem_cons.mp hsent with rfl | hsent
      · rw [hrow]
        exact hurl
      · exact hsound.journalled sent (.inl hsent)
    · exact hsound.journalled sent (.inr hsent)

theorem Sound.sendMelt {url : Text} (hurl : row.meltUrl = some url) :
    Sound rules { state with
      melts :=
        { id := id
          url := url
          journalled := (state.ledger.lookup id).bind Row.meltUrl } ::
            state.melts } := by
  refine hsound.record hrow rfl ?_ ?_ hsound.once ?_
  · rintro other (h | h | h | ⟨sent, hsent, heq⟩)
    · exact .inr (.inl h)
    · exact .inr (.inr (.inl h))
    · exact .inr (.inr (.inr (.inl h)))
    · rcases List.mem_cons.mp hsent with rfl | hsent
      · exact .inl heq.symm
      · exact .inr (.inr (.inr (.inr ⟨sent, hsent, heq⟩)))
  · intro other found hfound hok
    refine ⟨hok.paid, hok.unpaid, hok.hash, hok.note, hok.refund,
      hok.activated, hok.created, hok.rotated, ?_⟩
    intro sent hsent heq
    rcases List.mem_cons.mp hsent with rfl | hsent
    · subst heq
      rw [hrow, Option.some.injEq] at hfound
      exact hfound ▸ hurl
    · exact hok.melted sent hsent heq
  · rintro sent (hsent | hsent)
    · exact hsound.journalled sent (.inl hsent)
    · rcases List.mem_cons.mp hsent with rfl | hsent
      · rw [hrow]
        exact hurl
      · exact hsound.journalled sent (.inr hsent)

theorem Sound.activated (hsettled : row.state = .settled) :
    Sound rules { state with activated := id :: state.activated } := by
  refine hsound.record hrow rfl ?_ ?_ hsound.once hsound.journalled
  · rintro other (h | h)
    · exact (List.mem_cons.mp h).imp_right .inl
    · exact .inr (.inr h)
  · intro other found hfound hok
    refine ⟨hok.paid, hok.unpaid, hok.hash, hok.note, hok.refund, ?_,
      hok.created, hok.rotated, hok.melted⟩
    intro hmem
    rcases List.mem_cons.mp hmem with rfl | hmem
    · rw [hrow, Option.some.injEq] at hfound
      exact .inl (hfound ▸ hsettled)
    · exact hok.activated hmem

end

/-! ## The steps of an operation -/

variable {reply : Reply Text} {quote : Quote Text} {rotation : Rotation Text}
  {refund : RefundJournal Text}

theorem State.consent_eq_some {pubkey commitment : Text}
    (hconsent : state.consent pubkey id commitment = some row) :
    state.ledger.lookup id = some row :=
  (Option.filter_eq_some_iff.mp hconsent).1

theorem Next.of_ledger {middle : State Text} (hnext : Next rules middle after)
    (hledger : middle.ledger = state.ledger) : Next rules state after :=
  ⟨hnext.sound, hnext.task, hledger ▸ hnext.persists⟩

section

variable (hsound : Sound rules state)
include hsound

theorem Sound.quote_next (pubkey : Text) (request : QuoteRequest Text) :
    Next rules state (state.quote rules pubkey request) := by
  unfold State.quote
  dsimp only
  split
  · split
    · split
      · exact hsound.goto trivial
      · exact hsound.done
    · split
      · exact hsound.done
      · exact hsound.insertOrder rfl rfl rfl rfl rfl rfl
  · exact hsound.done

theorem Sound.reserve_next : Next rules state (state.reserve reply id) := by
  unfold State.reserve
  split
  · exact hsound.done
  · split
    · exact hsound.done
    · split
      · exact hsound.early (fun _ => rfl) rfl rfl fun _ _ _ => .none rfl
      · split
        · exact hsound.goto trivial
        · exact hsound.done

theorem Sound.lightning_next (pubkey commitment : Text) :
    Next rules state (state.lightning pubkey id commitment) := by
  unfold State.lightning
  split
  · exact hsound.done
  next row hconsent =>
    have hrow := State.consent_eq_some hconsent
    split
    next hquoted =>
      refine hsound.early (fun _ => rfl) rfl rfl fun found hfound _ => ?_
      refine .some rfl ⟨?_, _, AList.lookup_insert _, rfl⟩
      -- no invoice was asked for an order that is only quoted
      intro hmem
      have hbegun := (hsound.rows id row hrow).created hmem
      rw [hquoted.2.1] at hbegun
      cases hbegun
    · exact hsound.done

theorem Sound.createInvoice_next (hpc : PcOk rules state (.createInvoice id quote)) :
    Next rules state (state.createInvoice rules reply id quote) := by
  obtain ⟨hnew, row, hrow, hbegun⟩ := hpc
  have hasked := hsound.asked hrow hnew hbegun
  unfold State.createInvoice
  split
  · split
    · exact .of_ledger (hasked.goto trivial) rfl
    · exact .of_ledger hasked.done rfl
  · exact .of_ledger hasked.done rfl

theorem Sound.recoverInvoice_next (invoice : Invoice Text) :
    Next rules state (state.recoverInvoice rules id invoice) := by
  unfold State.recoverInvoice
  split
  · exact hsound.done
  · split
    · exact hsound.goto trivial
    · exact hsound.done

theorem Sound.lnurlcash_next (pubkey commitment input : Text) :
    Next rules state (state.lnurlcash rules pubkey id commitment input) := by
  unfold State.lnurlcash
  split
  next row note hconsent _ =>
    split
    · exact hsound.done
    · split
      · exact hsound.goto ⟨row, State.consent_eq_some hconsent, rfl⟩
      · exact hsound.done
  · exact hsound.done

theorem Sound.noteInfo_next {issuer : Issuer Text} {note : Note Text}
    (hpc : PcOk rules state (.noteInfo id quote issuer note)) :
    Next rules state (state.noteInfo rules reply id quote issuer note) := by
  unfold State.noteInfo
  split
  · split
    · split
      · exact hsound.done
      · exact hsound.goto hpc
    · exact hsound.done
  · exact hsound.done

theorem Sound.rotate_next (hpc : PcOk rules state (.rotate id quote rotation)) :
    Next rules state (state.rotate rules reply id quote rotation) := by
  obtain ⟨row, hrow, hquote, hrotation⟩ := hpc
  have hsent : Sound rules _ := hsound.sendRotation hrow
    (show row.rotationUrl = some rotation.requestUrl by
      rw [Row.rotationUrl, hrotation]; rfl)
  unfold State.rotate
  split
  · split
    · split
      next hverified =>
        refine .of_ledger (hsent.goto ⟨row, hrow, hrotation, ?_⟩) rfl
        rw [hquote]
        exact hverified
      · exact .of_ledger hsent.done rfl
    · exact .of_ledger hsent.done rfl
  · exact hsound.done

theorem Sound.certify_next {signature : Text}
    (hpc : PcOk rules state (.certify id rotation signature)) :
    Next rules state (state.certify rules id rotation signature) := by
  obtain ⟨row, hrow, hrotation, hverified⟩ := hpc
  exact hsound.settle hrow rfl ⟨_, rfl, rfl, rfl, hverified⟩
    (by rw [Row.rotationUrl, hrotation]; rfl)

theorem Sound.recover_next (hpc : PcOk rules state (.recover id quote rotation)) :
    Next rules state (state.recover rules reply id quote rotation) := by
  obtain ⟨row, hrow, hquote, hrotation⟩ := hpc
  have hresend : Next rules state (state.goto (.rotate id quote rotation)) :=
    hsound.goto ⟨row, hrow, hquote, hrotation⟩
  unfold State.recover
  split
  · exact hsound.done
  · split
    · split
      · exact hresend
      · split
        next hverified =>
          refine hsound.goto ⟨row, hrow, hrotation, ?_⟩
          rw [hquote]
          exact hverified.2.2.2.2
        · exact hresend
    · exact hresend

theorem Sound.check_next (pubkey commitment : Text) :
    Next rules state (state.check pubkey id commitment) := by
  unfold State.check
  split
  · exact hsound.done
  next row hconsent =>
    have hrow := State.consent_eq_some hconsent
    split
    · split
      next hash hhash =>
        split
        · exact hsound.goto ⟨row, hrow, hhash⟩
        · exact hsound.done
      · exact hsound.done
    · split
      next rotation hrotation =>
        exact hsound.goto ⟨row, hrow, rfl, hrotation⟩
      · exact hsound.done
    next hsettled => exact hsound.goto ⟨row, hrow, hsettled⟩
    · exact hsound.goto trivial
    all_goals exact hsound.done

theorem Sound.checkInvoice_next (hpc : PcOk rules state (.checkInvoice id hash)) :
    Next rules state (state.checkInvoice rules reply id hash) := by
  unfold State.checkInvoice
  split
  · split
    next hpreimage => exact hsound.goto ⟨hpreimage.1, hpreimage.2, hpc⟩
    · exact hsound.done
  · exact hsound.done

theorem Sound.settleInvoice_next {preimage : Bytes}
    (hpc : PcOk rules state (.settleInvoice id hash preimage)) :
    Next rules state (state.settleInvoice id hash preimage) := by
  obtain ⟨hlength, hsha, row, hrow, hhash⟩ := hpc
  exact hsound.settle hrow rfl ⟨hash, hhash, rfl, hlength, hsha⟩ rfl

theorem Sound.fulfil_next (hpc : PcOk rules state (.fulfil id))
    (hstore : storeAllows state reply (.fulfil id) = true) :
    Next rules state (state.fulfil reply id) := by
  obtain ⟨row, hrow, hsettled⟩ := hpc
  unfold State.fulfil
  split
  · exact .of_ledger ((hsound.activated hrow hsettled).goto trivial) rfl
  · have hnever : id ∉ state.activated := of_decide_eq_true hstore
    exact hsound.goto hnever
  · exact hsound.done

theorem Sound.refund_next : Next rules state (state.refund rules id) := by
  unfold State.refund
  split
  · exact hsound.done
  next row hrow =>
    split
    · split
      · split
        · exact hsound.goto trivial
        next refund hrefund =>
          exact hsound.goto ⟨row, hrow, by rw [Row.meltUrl, hrefund]; rfl⟩
      · exact hsound.done
    · exact hsound.done

theorem Sound.payRequest_next (quote : Quote Text) (destination : Text) (rotation : Rotation Text) :
    Next rules state (state.payRequest rules reply id quote destination rotation) := by
  unfold State.payRequest
  split
  · split
    · split
      · exact hsound.goto trivial
      · exact hsound.done
    · exact hsound.done
  · exact hsound.done

theorem Sound.startRefund_next (quote : Quote Text) (refund : RefundJournal Text) :
    Next rules state (state.write (state.ledger.startRefund id refund)
      fun state => state.goto (.melt id quote refund)) := by
  unfold Ledger.startRefund
  split
  · exact hsound.done
  next hfresh =>
    refine hsound.refunding (fun _ => rfl)
      (fun _ => ⟨rfl, rfl, rfl, rfl, rfl⟩) (fun _ => rfl) (fun _ => .inl) ?_ ?_
    · intro row hrow hok sent hsent heq
      rw [hrow] at hfresh
      have hnone : row.refund = none := by simpa using hfresh
      exact absurd heq (hok.not_melted hnone sent hsent)
    · rintro _ ⟨⟩ row hurl
      exact ⟨row, AList.lookup_insert _, hurl⟩

theorem Sound.settledBefore_next (hpc : PcOk rules state (.settledBefore id quote refund)) :
    Next rules state
      (state.settledBefore rules reply id quote refund) := by
  unfold State.settledBefore
  split
  · split
    · exact hsound.goto hpc
    · exact hsound.goto hpc
    · exact hsound.done
  · exact hsound.goto hpc

theorem Sound.melt_next (hpc : PcOk rules state (.melt id quote refund)) :
    Next rules state (state.melt rules reply id quote refund) := by
  obtain ⟨row, hrow, hurl⟩ := hpc
  have hsent : Sound rules _ := hsound.sendMelt hrow hurl
  unfold State.melt
  split
  · split
    · split
      · split
        · exact .of_ledger (hsent.goto ⟨row, hrow, hurl⟩) rfl
        · split
          · exact .of_ledger (hsent.goto ⟨row, hrow, hurl⟩) rfl
          · exact .of_ledger hsent.done rfl
      · exact .of_ledger hsent.done rfl
    · exact .of_ledger hsent.done rfl
  · exact hsound.done

theorem Sound.updateRefund_next (refund : RefundJournal Text) :
    Next rules state (state.write (state.ledger.updateRefund id refund)
      fun state => state.goto (.settledAfter id refund)) := by
  unfold Ledger.updateRefund
  split
  · exact hsound.done
  next current hcurrent =>
    split
    next hsame =>
      refine hsound.refunding (fun _ => rfl)
        (fun _ => ⟨rfl, rfl, rfl, rfl, rfl⟩) (fun _ => rfl) (fun _ => .inl)
        ?_ ?_
      · intro row hrow hok sent hsent heq
        have hurl := hok.melted sent hsent heq
        rw [hrow] at hcurrent
        rw [Row.meltUrl, show row.refund = some current from hcurrent] at hurl
        exact hsame.2.symm.trans (Option.some.inj hurl)
      · rintro _ ⟨⟩ row hurl
        exact ⟨row, AList.lookup_insert _, hurl⟩
    · exact hsound.done

theorem Sound.settledAfter_next (hpc : PcOk rules state (.settledAfter id refund)) :
    Next rules state (state.settledAfter rules reply id refund) := by
  unfold State.settledAfter
  split
  · split
    · exact hsound.goto hpc
    · exact hsound.done
  · exact hsound.done

theorem Sound.complete_next (hpc : PcOk rules state (.complete id refund)) : Next rules state
      (state.write (state.ledger.completeRefund id refund) State.done) := by
  obtain ⟨row, hrow, hurl⟩ := hpc
  unfold Ledger.completeRefund
  split
  · exact hsound.done
  · refine hsound.refunding (fun _ => rfl) (fun _ => ⟨rfl, rfl, rfl, rfl, rfl⟩) (fun _ => rfl)
      (fun _ _ => .inr rfl) ?_ (fun _ h => by cases h)
    intro found hfound hok sent hsent heq
    rw [hrow, Option.some.injEq] at hfound
    subst hfound
    exact Option.some.inj (hurl.symm.trans (hok.melted sent hsent heq))

theorem Sound.advance (hpc : PcOk rules state pc) (hstore : storeAllows state reply pc = true) :
    Next rules state (state.advance rules reply pc) := by
  cases pc with
  | quote pubkey request => exact hsound.quote_next pubkey request
  | reserve id => exact hsound.reserve_next
  | quoted id =>
    exact hsound.early (fun _ => rfl) rfl rfl fun _ _ _ => .none rfl
  | lightning pubkey id commitment =>
    exact hsound.lightning_next pubkey commitment
  | createInvoice id quote => exact hsound.createInvoice_next hpc
  | attach id invoice => exact hsound.attachInvoice
  | recoverInvoice id invoice => exact hsound.recoverInvoice_next invoice
  | lnurlcash pubkey id commitment input =>
    exact hsound.lnurlcash_next pubkey commitment input
  | noteInfo id quote issuer note => exact hsound.noteInfo_next hpc
  | journal id quote identity rotation => exact hsound.journal hpc
  | rotate id quote rotation => exact hsound.rotate_next hpc
  | certify id rotation signature => exact hsound.certify_next hpc
  | check pubkey id commitment => exact hsound.check_next pubkey commitment
  | checkInvoice id hash => exact hsound.checkInvoice_next hpc
  | settleInvoice id hash preimage => exact hsound.settleInvoice_next hpc
  | recover id quote rotation => exact hsound.recover_next hpc
  | fulfil id => exact hsound.fulfil_next hpc hstore
  | activate id receipt => exact hsound.activate
  | refuse id => exact hsound.refuse hpc
  | refund id => exact hsound.refund_next
  | payRequest id quote destination rotation =>
    exact hsound.payRequest_next quote destination rotation
  | startRefund id quote refund => exact hsound.startRefund_next quote refund
  | settledBefore id quote refund => exact hsound.settledBefore_next hpc
  | melt id quote refund => exact hsound.melt_next hpc
  | updateRefund id refund => exact hsound.updateRefund_next refund
  | settledAfter id refund => exact hsound.settledAfter_next hpc
  | complete id refund => exact hsound.complete_next hpc

end

theorem Request.pcOk {request : Request Text} (hpc : request.pc state = some pc) :
    PcOk rules state pc := by
  cases request with
  | reconcile id =>
    obtain ⟨row, -, rfl⟩ := Option.map_eq_some_iff.mp hpc
    trivial
  | _ =>
    cases hpc
    trivial

theorem step_next {action : Action Text} (hsound : Sound rules state) (htask : TaskOk rules state)
    (hstep : step rules state action = some after) : Next rules state after := by
  cases action with
  | call request =>
    simp only [step] at hstep
    split at hstep
    · cases hstep
    · obtain ⟨pc, hpc, rfl⟩ := Option.map_eq_some_iff.mp hstep
      exact hsound.goto (Request.pcOk hpc)
  | advance reply =>
    obtain ⟨pc, hpc, hadvance⟩ := Option.bind_eq_some_iff.mp hstep
    obtain ⟨hstore, hafter⟩ := Option.ite_none_right_eq_some.mp hadvance
    cases hafter
    exact hsound.advance (htask pc hpc) hstore
  | stop =>
    cases hstep
    exact hsound.done
  | restart config =>
    cases hstep
    exact ⟨hsound.same ⟨rfl, rfl, rfl, rfl, rfl, rfl⟩, .none rfl, .refl _⟩
  | time clock =>
    cases hstep
    refine ⟨hsound.same ⟨rfl, rfl, rfl, rfl, rfl, rfl⟩, ?_, .refl _⟩
    intro pc hpc
    have hok := htask pc hpc
    cases pc <;> exact hok

/-! ## Runs -/

theorem sound_initial (config : Config Text) : Sound rules (State.initial config) where
  rows := fun _ _ h => by cases h
  known := by
    rintro id (h | h | ⟨_, h, _⟩ | ⟨_, h, _⟩) <;> cases h
  once := List.nodup_nil
  journalled := by rintro sent (h | h) <;> cases h
  apart := fun _ _ _ _ h => by cases h

/-- From a sound state every run leads to sound states that attach as much. -/
theorem next_of_reaches {start : State Text} (hsound : Sound rules start)
    (htask : TaskOk rules start) (hreach : Reaches (step rules) everyStep start state) :
    Next rules start state := by
  refine hreach.invariant ⟨hsound, htask, .refl _⟩ ?_
  intro before after action hbefore _ hstep
  have hnext := step_next hbefore.sound hbefore.task hstep
  exact ⟨hnext.sound, hnext.task, hbefore.persists.trans hnext.persists⟩

end Checkout
end Wildbloom
