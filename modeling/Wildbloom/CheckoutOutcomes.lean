import Wildbloom.CheckoutSteps
import Mathlib.Tactic

/-!
# Payments of the checkout

Two consequences of the ledger being sound.  An order has one outcome: it is
either activated or refunded, and only after a verified payment.  And an order
changes the outside world once in each way: one invoice, one rotation and one
melt, however often the last two are sent.
-/

namespace Wildbloom
namespace Checkout

open Runs KeyedTables

variable {Text : Type} [DecidableEq Text] {rules : Rules Text}

/-! ## One outcome -/

/-- No order that the store has activated is or was refunded, and every order
that is active or refunded was settled by verified evidence. -/
theorem one_payment_outcome {config : Config Text} {state : State Text}
    (hreach : Reaches (step rules) everyStep (State.initial config) state)
    {id : Text} {row : Row Text} (hrow : state.ledger.lookup id = some row) :
    (id ∈ state.activated → row.state ≠ .refundRequired ∧ row.state ≠ .refunded) ∧
    (row.state = .active ∨ row.state = .refundRequired ∨ row.state = .refunded →
      Settled rules state id row) := by
  have hnext := next_of_reaches (sound_initial config) (.none rfl) hreach
  have hok := hnext.sound.rows id row hrow
  constructor
  · intro hmem
    rcases hok.activated hmem with hstate | hstate <;> simp [hstate]
  · intro hstate
    apply hok.paid
    rcases hstate with hstate | hstate | hstate <;> rw [hstate] <;> rfl

section Sample

def sampleRules : Rules ℕ where
  id := fun _ => true
  lightningAddress := fun _ => true
  orderId := fun _ request => request
  quoteDigest := fun _ => 9
  hashLength := fun _ => true
  invoiceLength := fun _ => true
  parseInvoice := fun _ => some
    { description := some 7
      currency := .bitcoin
      amountMsat := some 1000
      paymentHash := 32
      expiresAt := some 50
      timestamp := 1 }
  sha256 := fun bytes => bytes.length
  digest := fun url => url
  resolveNote := fun k1 => some { endpoint := 5, k1 := k1, noteId := k1 }
  identity := fun _ _ note => note
  rotateRequest := fun _ _ secret => some secret
  startsWithCallback := fun _ _ => true
  verifyNote := fun _ _ _ _ _ => true
  refundEndpoint := fun _ => true
  meltRequest := fun _ secret _ => some secret
  sameOrigin := fun _ _ => true
  sameInvoice := fun _ _ => true

def sampleConfig : Config ℕ where
  network := .bitcoin
  quoteSeconds := 60
  offers :=
    [{ id := 3
       capacityBytes := 1
       durationSeconds := 1
       graceSeconds := 1
       priceMsat := 1000 }]
  issuers := [{ id := 4, noteEndpoint := 5, callback := 6, mintPubkey := 8 }]
  lightning := true
  notes := true
  refunds := true

def sampleReceipt : Receipt ℕ where
  allowanceId := 7
  capacityBytes := 1
  startsAt := 0
  writesUntil := 1
  retainsUntil := 2

def sampleQuote (rail : Rail) : List (Action ℕ) :=
  [.call (.quote 1
      { requestId := 7
        offerId := 3
        rail := rail
        issuerId := if rail = .lnurlcash then some 4 else none
        renews := none
        refundTo := some 2 }),
    .advance .failed, .advance .reserved, .advance .failed]

/-- The process dies after the store has activated the sale, and the order is
checked once more. -/
def sampleSale : List (Action ℕ) :=
  sampleQuote .lightning ++
  [.call (.lightning 1 7 9), .advance .failed,
    .advance (.invoice { bolt11 := 11, paymentHash := 32 }), .advance .failed,
    .call (.check 1 7 9), .advance .failed,
    .advance (.status true (some (List.replicate 32 0))), .advance .failed,
    .advance (.activated sampleReceipt), .restart sampleConfig,
    .call (.reconcile 7), .advance .failed,
    .advance (.activated sampleReceipt), .advance .failed]

end Sample

theorem one_payment_outcome_of_an_interrupted_sale : ∃ state row,
      Reaches (step sampleRules) everyStep (State.initial sampleConfig) state ∧
      state.ledger.lookup 7 = some row ∧ row.state = .active ∧
      7 ∈ state.activated ∧ row.state ≠ .refundRequired ∧
      Settled sampleRules state 7 row := by
  have hrun : (runActions (step sampleRules) (State.initial sampleConfig)
      sampleSale).any (fun state => decide (7 ∈ state.activated) &&
        (state.ledger.lookup 7).any fun row =>
          decide (Row.state row = .active)) = true := by
    decide +kernel
  obtain ⟨state, hreach, htest⟩ := exists_reaches_of_runActions hrun
  simp only [Bool.and_eq_true, decide_eq_true_eq, Option.any_eq_true] at htest
  obtain ⟨hmem, row, hrow, hactive⟩ := htest
  have houtcome := one_payment_outcome hreach hrow
  exact ⟨state, row, hreach, hrow, hactive, hmem, (houtcome.1 hmem).1, houtcome.2 (.inl hactive)⟩

/-! ## One mutation of each kind -/

/-- What the first request for an order found journalled is what every
request for the order sends. -/
def SentAsJournalled (log : List (Sent Text)) : Prop :=
  ∀ first ∈ log, ∀ sent ∈ log, sent.id = first.id → first.journalled = some sent.url

/-- The orders have a payment hash, a note or a reference in common. -/
def Row.Shares (row other : Row Text) : Prop :=
  (∃ hash, row.paymentHash = some hash ∧ other.paymentHash = some hash) ∨
  (∃ note, row.noteId = some note ∧ other.noteId = some note) ∨
  ∃ reference, row.settlement = some reference ∧ other.settlement = some reference

omit [DecidableEq Text] in
theorem Row.Apart.not_shares {row other : Row Text}
    (hapart : row.Apart other) : ¬ row.Shares other := by
  rintro (⟨hash, hrow, hother⟩ | ⟨note, hrow, hother⟩ | ⟨reference, hrow, hother⟩)
  · exact hapart.hash hash hrow hother
  · exact hapart.note note hrow hother
  · exact hapart.settlement reference hrow hother

omit [DecidableEq Text] in
theorem Row.Shares.keeps {row after other : Row Text}
    (hshares : row.Shares other) (hkeeps : row.Keeps after) : after.Shares other := by
  rcases hshares with ⟨hash, hrow, hother⟩ | ⟨note, hrow, hother⟩ | ⟨reference, hrow, hother⟩
  · exact .inl ⟨hash, hkeeps.hash _ hrow, hother⟩
  · exact .inr (.inl ⟨note, hkeeps.note _ hrow, hother⟩)
  · exact .inr (.inr ⟨reference, hkeeps.settlement _ hrow, hother⟩)

/-- All requests of a kind for an order name what its row names. -/
theorem sentAsJournalled {state : State Text} {log : List (Sent Text)}
    {url : Row Text → Option Text}
    (hrow : ∀ sent ∈ log, ∃ row, state.ledger.lookup sent.id = some row)
    (hurl : ∀ id row, state.ledger.lookup id = some row → ∀ sent ∈ log,
      sent.id = id → url row = some sent.url)
    (hjournalled : ∀ sent ∈ log, sent.journalled = some sent.url) : SentAsJournalled log := by
  intro first hfirst sent hsent heq
  obtain ⟨row, hfound⟩ := hrow first hfirst
  rw [hjournalled first hfirst, ← hurl _ row hfound first hfirst rfl,
    hurl _ row hfound sent hsent heq]

/-- For every order an invoice is asked for at most once, and all rotations
and all melts sent are the journalled one.  What is attached to an order in
one state of a run is attached to no other order in that state or later. -/
theorem one_mutation_of_each_kind {config : Config Text} {state : State Text}
    (hreach : Reaches (step rules) everyStep (State.initial config) state) :
    (∀ id, state.created.count id ≤ 1) ∧
    SentAsJournalled state.rotations ∧
    SentAsJournalled state.melts ∧
    ∀ later, Reaches (step rules) everyStep state later →
      ∀ one two row other, state.ledger.lookup one = some row →
        later.ledger.lookup two = some other → row.Shares other →
        one = two := by
  have hnext := next_of_reaches (sound_initial config) (.none rfl) hreach
  have hsound := hnext.sound
  refine ⟨fun id => List.nodup_iff_count_le_one.mp hsound.once id, ?_, ?_, ?_⟩
  · exact sentAsJournalled (fun sent h => hsound.known _ (.inr (.inr (.inl ⟨sent, h, rfl⟩))))
      (fun id row hrow => (hsound.rows id row hrow).rotated)
      (fun sent h => hsound.journalled sent (.inl h))
  · exact sentAsJournalled (fun sent h => hsound.known _ (.inr (.inr (.inr ⟨sent, h, rfl⟩))))
      (fun id row hrow => (hsound.rows id row hrow).melted)
      (fun sent h => hsound.journalled sent (.inr h))
  · intro later hlater one two row other hone htwo hshares
    have hrest := next_of_reaches hsound hnext.task hlater
    obtain ⟨found, hfound, hkeeps⟩ := hrest.persists one row hone
    by_contra hne
    exact (hrest.sound.apart one two found other hfound htwo hne).not_shares (hshares.keeps hkeeps)

def sampleInfo : NoteInfo ℕ where
  callback := 6
  k1 := 12
  mintPubkey := some 8
  maxWithdrawable := 1000
  signature := none

def samplePay : PayReply ℕ where
  callback := 13
  minSendable := 1
  maxSendable := 1000
  pr := 14
  verify := none

/-- The issuer's first answers are lost, and the rotation and the melt of the
note are each sent twice. -/
def sampleRefund : List (Action ℕ) :=
  sampleQuote .lnurlcash ++
  [.call (.lnurlcash 1 7 9 12), .advance .failed,
    .advance (.noteInfo sampleInfo 15), .advance .failed, .advance .failed,
    .call (.check 1 7 9), .advance .failed, .advance .failed,
    .advance (.rotated (some 16)), .advance .failed, .advance .unavailable,
    .advance .failed,
    .call (.refund 7), .advance .failed, .advance (.pay samplePay),
    .advance .failed, .advance .failed,
    .call (.refund 7), .advance .failed, .advance .failed, .advance .failed]

theorem one_mutation_of_each_kind_in_a_repeated_refund : ∃ state,
      Reaches (step sampleRules) everyStep (State.initial sampleConfig) state ∧
      state.rotations.length = 2 ∧ state.melts.length = 2 ∧
      SentAsJournalled state.rotations ∧ SentAsJournalled state.melts := by
  have hrun : (runActions (step sampleRules) (State.initial sampleConfig)
      sampleRefund).any (fun state => decide (state.rotations.length = 2) &&
        decide (state.melts.length = 2)) = true := by
    decide +kernel
  obtain ⟨state, hreach, htest⟩ := exists_reaches_of_runActions hrun
  simp only [Bool.and_eq_true, decide_eq_true_eq] at htest
  have hkinds := one_mutation_of_each_kind hreach
  exact ⟨state, hreach, htest.1, htest.2, hkinds.2.1, hkinds.2.2.1⟩

end Checkout
end Wildbloom
