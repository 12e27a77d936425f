import Wildbloom.CheckoutModel
import Mathlib.Tactic

/-!
# What the checkout's ledger says about an order

`RowOk` says for one order what its state means: what was verified before it
was paid, which columns can be set, and what was sent for it.  `PcOk` says what
an operation has established when it comes to a step.  Both hold along every
run, and no step ever takes a payment hash, a note or a settlement reference
away from an order.
-/

namespace Wildbloom
namespace Checkout

open Runs KeyedTables

variable {Text : Type}

def OrderState.paid : OrderState → Bool
  | .settled | .active | .refundRequired | .refunded => true
  | .reserving | .quoted | .expired | .invoicePending | .awaitingPayment
  | .lnurlPending => false

def OrderState.early : OrderState → Bool
  | .reserving | .quoted | .expired => true
  | .invoicePending | .awaitingPayment | .lnurlPending | .settled | .active
  | .refundRequired | .refunded => false

section

variable (rules : Rules Text) (state : State Text) (id : Text) (row : Row Text)

/-- The evidence proves the settlement: a preimage of 32 bytes that hashes to
the stored payment hash, or a certificate that verifies for the journalled
replacement. -/
def Evidence.Proves (reference : Reference Text) : Evidence Text → Prop
  | .preimage bytes =>
    ∃ hash, row.paymentHash = some hash ∧ reference = .lightning hash ∧
      bytes.length = 32 ∧ rules.sha256 bytes = hash
  | .certificate signature =>
    ∃ rotation, row.rotation = some rotation ∧ rotation.certificate = some signature ∧
      reference = .lnurlcash (rules.digest rotation.requestUrl) ∧
      rules.verifyNote rotation.newSecret rotation.endpoint
        row.quote.offer.priceMsat signature rotation.mintPubkey = true

/-- A settlement reference was recorded for the order after verified
evidence. -/
def Settled : Prop :=
  ∃ reference evidence, row.settlement = some reference ∧
    (id, evidence) ∈ state.evidence ∧ evidence.Proves rules row reference

structure RowOk : Prop where
  paid : row.state.paid = true → Settled rules state id row
  unpaid : row.state.paid = false → row.settlement = none
  hash : row.state.early = true ∨ row.state = .invoicePending → row.paymentHash = none
  note : row.state.early = true → row.noteId = none ∧ row.rotation = none
  refund : row.refund ≠ none → row.state = .refundRequired ∨ row.state = .refunded
  activated : id ∈ state.activated → row.state = .settled ∨ row.state = .active
  created : id ∈ state.created → row.state.early = false
  rotated : ∀ sent ∈ state.rotations, sent.id = id → row.rotationUrl = some sent.url
  melted : ∀ sent ∈ state.melts, sent.id = id → row.meltUrl = some sent.url

end

structure Row.Apart (row other : Row Text) : Prop where
  hash : ∀ hash, row.paymentHash = some hash → other.paymentHash ≠ some hash
  note : ∀ note, row.noteId = some note → other.noteId ≠ some note
  settlement : ∀ reference, row.settlement = some reference → other.settlement ≠ some reference

theorem Row.Apart.symm {row other : Row Text} (hapart : row.Apart other) : other.Apart row :=
  ⟨fun hash hother hrow => hapart.hash hash hrow hother,
    fun note hother hrow => hapart.note note hrow hother,
    fun reference hother hrow => hapart.settlement reference hrow hother⟩

structure Row.Keeps (row after : Row Text) : Prop where
  hash : ∀ hash, row.paymentHash = some hash → after.paymentHash = some hash
  note : ∀ note, row.noteId = some note → after.noteId = some note
  settlement : ∀ reference, row.settlement = some reference → after.settlement = some reference

def State.Logged (state : State Text) (id : Text) : Prop :=
  id ∈ state.activated ∨ id ∈ state.created ∨ (∃ sent ∈ state.rotations, sent.id = id) ∨
    ∃ sent ∈ state.melts, sent.id = id

variable [DecidableEq Text] (rules : Rules Text) (state : State Text)

structure Sound : Prop where
  rows : ∀ id row, state.ledger.lookup id = some row → RowOk rules state id row
  known : ∀ id, state.Logged id → ∃ row, state.ledger.lookup id = some row
  once : state.created.Nodup
  journalled : ∀ sent, sent ∈ state.rotations ∨ sent ∈ state.melts → sent.journalled = some sent.url
  apart : ∀ one two row other, state.ledger.lookup one = some row →
    state.ledger.lookup two = some other → one ≠ two → row.Apart other

def PcOk : Pc Text → Prop
  | .createInvoice id _ =>
    id ∉ state.created ∧ ∃ row, state.ledger.lookup id = some row ∧ row.state.early = false
  | .noteInfo id quote _ _ | .journal id quote _ _ =>
    ∃ row, state.ledger.lookup id = some row ∧ row.quote = quote
  | .rotate id quote rotation | .recover id quote rotation =>
    ∃ row, state.ledger.lookup id = some row ∧ row.quote = quote ∧ row.rotation = some rotation
  | .certify id rotation signature =>
    ∃ row, state.ledger.lookup id = some row ∧ row.rotation = some rotation ∧
      rules.verifyNote rotation.newSecret rotation.endpoint
        row.quote.offer.priceMsat signature rotation.mintPubkey = true
  | .checkInvoice id hash =>
    ∃ row, state.ledger.lookup id = some row ∧ row.paymentHash = some hash
  | .settleInvoice id hash preimage =>
    preimage.length = 32 ∧ rules.sha256 preimage = hash ∧
      ∃ row, state.ledger.lookup id = some row ∧ row.paymentHash = some hash
  | .fulfil id =>
    ∃ row, state.ledger.lookup id = some row ∧ row.state = .settled
  | .refuse id => id ∉ state.activated
  | .settledBefore id _ refund | .melt id _ refund | .updateRefund id refund
  | .settledAfter id refund | .complete id refund =>
    ∃ row, state.ledger.lookup id = some row ∧ row.meltUrl = some refund.requestUrl
  | .quote _ _ | .reserve _ | .quoted _ | .lightning _ _ _ | .attach _ _
  | .recoverInvoice _ _ | .lnurlcash _ _ _ _ | .check _ _ _ | .activate _ _
  | .refund _ | .payRequest _ _ _ _ | .startRefund _ _ _ => True

def TaskOk : Prop :=
  ∀ pc, state.task = some pc → PcOk rules state pc

def Persists (before after : Ledger Text) : Prop :=
  ∀ id row, before.lookup id = some row → ∃ found, after.lookup id = some found ∧ row.Keeps found

theorem Persists.refl (ledger : Ledger Text) : Persists ledger ledger :=
  fun _ row hrow => ⟨row, hrow, ⟨fun _ h => h, fun _ h => h, fun _ h => h⟩⟩

theorem Persists.trans {one two three : Ledger Text}
    (hfirst : Persists one two) (hsecond : Persists two three) : Persists one three := by
  intro id row hrow
  obtain ⟨found, hfound, hkeeps⟩ := hfirst id row hrow
  obtain ⟨last, hlast, hrest⟩ := hsecond id found hfound
  exact ⟨last, hlast, ⟨fun _ h => hrest.hash _ (hkeeps.hash _ h),
    fun _ h => hrest.note _ (hkeeps.note _ h),
    fun _ h => hrest.settlement _ (hkeeps.settlement _ h)⟩⟩

structure Next (state after : State Text) : Prop where
  sound : Sound rules after
  task : TaskOk rules after
  persists : Persists state.ledger after.ledger

/-! ## How states follow each other -/

section Follow

variable {rules state} {after : State Text}

structure State.Same (state after : State Text) : Prop where
  ledger : after.ledger = state.ledger
  activated : after.activated = state.activated
  created : after.created = state.created
  rotations : after.rotations = state.rotations
  melts : after.melts = state.melts
  evidence : after.evidence = state.evidence

omit [DecidableEq Text] in
theorem RowOk.of_logs {id : Text} {row : Row Text} (hok : RowOk rules state id row)
    (hactivated : after.activated = state.activated) (hcreated : after.created = state.created)
    (hrotations : after.rotations = state.rotations) (hmelts : after.melts = state.melts)
    (hevidence : ∀ entry ∈ state.evidence, entry ∈ after.evidence) : RowOk rules after id row := by
  refine ⟨?_, hok.unpaid, hok.hash, hok.note, hok.refund, ?_, ?_, ?_, ?_⟩
  · intro hpaid
    obtain ⟨reference, evidence, hsettlement, hmem, hproves⟩ := hok.paid hpaid
    exact ⟨reference, evidence, hsettlement, hevidence _ hmem, hproves⟩
  · rw [hactivated]
    exact hok.activated
  · rw [hcreated]
    exact hok.created
  · rw [hrotations]
    exact hok.rotated
  · rw [hmelts]
    exact hok.melted

section

variable (hsound : Sound rules state)
include hsound

theorem Sound.same (hsame : state.Same after) : Sound rules after := by
  constructor
  · rw [hsame.ledger]
    intro id row hrow
    exact (hsound.rows id row hrow).of_logs hsame.activated hsame.created
      hsame.rotations hsame.melts (by rw [hsame.evidence]; exact fun _ h => h)
  · intro id hlogged
    rw [State.Logged, hsame.activated, hsame.created, hsame.rotations, hsame.melts] at hlogged
    rw [hsame.ledger]
    exact hsound.known id hlogged
  · rw [hsame.created]
    exact hsound.once
  · rw [hsame.rotations, hsame.melts]
    exact hsound.journalled
  · rw [hsame.ledger]
    exact hsound.apart

theorem Sound.goto {pc : Pc Text} (hpc : PcOk rules state pc) :
    Next rules state (state.goto pc) where
  sound := hsound.same ⟨rfl, rfl, rfl, rfl, rfl, rfl⟩
  task := by
    rintro _ ⟨⟩
    cases pc <;> exact hpc
  persists := .refl _

theorem Sound.done : Next rules state state.done where
  sound := hsound.same ⟨rfl, rfl, rfl, rfl, rfl, rfl⟩
  task := by
    rintro _ ⟨⟩
  persists := .refl _

/-- A write of the ledger that is a conflict ends the operation. -/
theorem Sound.write {result : Option (Ledger Text)} {next : State Text → State Text}
    (hsome : ∀ ledger, result = some ledger →
      Next rules state (next { state with ledger := ledger })) :
    Next rules state (state.write result next) := by
  unfold State.write
  split
  · exact hsome _ rfl
  · exact hsound.done

theorem Sound.change {id : Text} {found : Row Text}
    (hledger : after.ledger = state.ledger.insert id found)
    (hactivated : after.activated = state.activated) (hcreated : after.created = state.created)
    (hrotations : after.rotations = state.rotations) (hmelts : after.melts = state.melts)
    (hevidence : ∀ entry ∈ state.evidence, entry ∈ after.evidence)
    (hok : RowOk rules after id found)
    (hapart : ∀ other row, other ≠ id → state.ledger.lookup other = some row → row.Apart found)
    (hkeeps : ∀ row, state.ledger.lookup id = some row → row.Keeps found)
    (htask : TaskOk rules after) : Next rules state after := by
  refine ⟨?_, htask, ?_⟩
  · constructor
    · rw [hledger]
      intro other row hrow
      rcases lookup_insert_cases hrow with ⟨rfl, rfl⟩ | ⟨-, hold⟩
      · exact hok
      · exact (hsound.rows other row hold).of_logs hactivated hcreated hrotations hmelts hevidence
    · intro other hlogged
      rw [State.Logged, hactivated, hcreated, hrotations, hmelts] at hlogged
      obtain ⟨row, hrow⟩ := hsound.known other hlogged
      rw [hledger]
      by_cases heq : other = id
      · exact ⟨found, by rw [heq, AList.lookup_insert]⟩
      · exact ⟨row, by rw [AList.lookup_insert_ne heq, hrow]⟩
    · rw [hcreated]
      exact hsound.once
    · rw [hrotations, hmelts]
      exact hsound.journalled
    · rw [hledger]
      intro one two row other hone htwo hne
      rcases lookup_insert_cases hone with ⟨rfl, rfl⟩ | ⟨hleft, hfirst⟩ <;>
        rcases lookup_insert_cases htwo with ⟨rfl, rfl⟩ | ⟨hright, hsecond⟩
      · exact absurd rfl hne
      · exact (hapart two other hright hsecond).symm
      · exact hapart one row hleft hfirst
      · exact hsound.apart one two row other hfirst hsecond hne
  · rw [hledger]
    intro other row hrow
    by_cases heq : other = id
    · subst heq
      exact ⟨found, by rw [AList.lookup_insert], hkeeps row hrow⟩
    · exact ⟨row, by rw [AList.lookup_insert_ne heq, hrow],
        ⟨fun _ h => h, fun _ h => h, fun _ h => h⟩⟩

theorem Sound.amend {id : Text} {row found : Row Text} {pc : Option (Pc Text)}
    (hrow : state.ledger.lookup id = some row) (hhash : found.paymentHash = row.paymentHash)
    (hnote : found.noteId = row.noteId) (hsettlement : found.settlement = row.settlement)
    (hok : RowOk rules state id found) (htask : TaskOk rules { state with
      ledger := state.ledger.insert id found, task := pc }) :
    Next rules state { state with ledger := state.ledger.insert id found, task := pc } := by
  refine hsound.change rfl rfl rfl rfl rfl (fun _ h => h)
    (hok.of_logs rfl rfl rfl rfl fun _ h => h) ?_ ?_ htask
  · intro other old hne hold
    have hapart := hsound.apart other id old row hold hrow hne
    exact ⟨by rw [hhash]; exact hapart.hash, by rw [hnote]; exact hapart.note,
      by rw [hsettlement]; exact hapart.settlement⟩
  · intro old hold
    rw [hrow, Option.some.injEq] at hold
    subst hold
    exact ⟨by rw [hhash]; exact fun _ h => h, by rw [hnote]; exact fun _ h => h,
      by rw [hsettlement]; exact fun _ h => h⟩

end

end Follow

end Checkout
end Wildbloom
