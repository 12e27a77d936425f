import Wildbloom.GuardedRuns
import Wildbloom.KeyedTables

/-!
# The checkout

An order is quoted, paid over Lightning or with an LNURLcash note, and then
activates a storage sale or is refunded.  The ledger keeps one row for each
order, and every change of a row is guarded by the state it is in.

One operation runs at a time: all of them take the same lock or fail.  An
operation's steps are its changes of the ledger, its calls to the store and
its requests to the outside; it may stop at each of them, and replies are
arbitrary.  What the process reads under the lock cannot change before it
writes, so a read belongs to the step that follows it.

`Rules` collects what libraries compute.  The lists `created`, `rotations`,
`melts` and `evidence` are not in the source: they record the invoices asked
for, the mutations sent with what the journal held then, and what each
settlement was based on.
-/

namespace Wildbloom
namespace Checkout

open Runs KeyedTables

inductive Rail
  | lightning
  | lnurlcash
deriving DecidableEq

inductive Network
  | bitcoin
  | testnet
  | regtest
deriving DecidableEq

variable (Text : Type)

structure Offer where
  id : Text
  capacityBytes : ℕ
  durationSeconds : ℕ
  graceSeconds : ℕ
  priceMsat : ℕ
deriving DecidableEq

structure Issuer where
  id : Text
  noteEndpoint : Text
  callback : Text
  mintPubkey : Text
deriving DecidableEq

structure Config where
  network : Network
  quoteSeconds : ℕ
  offers : List (Offer Text)
  issuers : List (Issuer Text)
  lightning : Bool
  notes : Bool
  refunds : Bool

structure QuoteRequest where
  requestId : Text
  offerId : Text
  rail : Rail
  issuerId : Option Text
  renews : Option Text
  refundTo : Option Text
deriving DecidableEq

structure Quote where
  orderId : Text
  signerPubkey : Text
  network : Network
  rail : Rail
  offer : Offer Text
  issuer : Option (Issuer Text)
  createdAt : ℕ
  expiresAt : ℕ
  renews : Option Text
  refundTo : Option Text
deriving DecidableEq

inductive OrderState
  | reserving
  | quoted
  | expired
  | invoicePending
  | awaitingPayment
  | lnurlPending
  | settled
  | active
  | refundRequired
  | refunded
deriving DecidableEq

/-- The journal of a rotation; the certificate is of the replacement note. -/
structure Rotation where
  requestUrl : Text
  newSecret : Text
  issuer : Text
  mintPubkey : Text
  endpoint : Text
  certificate : Option Text
deriving DecidableEq

structure RefundJournal where
  destination : Text
  invoice : Text
  paymentHash : Text
  receiverVerify : Option Text
  requestUrl : Text
  issuerVerify : Option Text
  refundedAt : Option ℕ
deriving DecidableEq

/-- A settlement reference: a payment hash, or the digest of a rotation. -/
inductive Reference
  | lightning (hash : Text)
  | lnurlcash (digest : Text)
deriving DecidableEq

structure Receipt where
  allowanceId : Text
  capacityBytes : ℕ
  startsAt : ℕ
  writesUntil : ℕ
  retainsUntil : ℕ
deriving DecidableEq

structure Row where
  request : QuoteRequest Text
  quote : Quote Text
  digest : Text
  state : OrderState := .reserving
  invoice : Option Text := none
  paymentHash : Option Text := none
  rotation : Option (Rotation Text) := none
  noteId : Option Text := none
  settlement : Option (Reference Text) := none
  receipt : Option (Receipt Text) := none
  refund : Option (RefundJournal Text) := none
deriving DecidableEq

/-- The rotation and the melt that the journal of an order holds. -/
def Row.rotationUrl {Text : Type} (row : Row Text) : Option Text :=
  row.rotation.map Rotation.requestUrl

def Row.meltUrl {Text : Type} (row : Row Text) : Option Text :=
  row.refund.map RefundJournal.requestUrl

/-! ## Rules -/

abbrev Bytes := List (Fin 256)

structure Bolt11 where
  description : Option Text
  currency : Network
  amountMsat : Option ℕ
  paymentHash : Text
  expiresAt : Option ℕ
  timestamp : ℕ

structure Invoice where
  bolt11 : Text
  paymentHash : Text

/-- A note that is offered: its address without the query, its key, its id. -/
structure Note where
  endpoint : Text
  k1 : Text
  noteId : Text

structure Rules where
  id : Text → Bool
  lightningAddress : Text → Bool
  orderId : Text → Text → Text
  quoteDigest : Quote Text → Text
  hashLength : Text → Bool
  invoiceLength : Text → Bool
  parseInvoice : Text → Option (Bolt11 Text)
  sha256 : Bytes → Text
  digest : Text → Text
  resolveNote : Text → Option (Note Text)
  identity : Text → Text → Text → Text
  rotateRequest : Text → Text → Text → Option Text
  startsWithCallback : Text → Text → Bool
  verifyNote : Text → Text → ℕ → Text → Text → Bool
  refundEndpoint : Text → Bool
  meltRequest : Text → Text → Text → Option Text
  sameOrigin : Text → Text → Bool
  sameInvoice : Text → Text → Bool

variable {Text} [DecidableEq Text]

def validateInvoice (rules : Rules Text) (now : ℕ) (quote : Quote Text)
    (invoice : Invoice Text) (allowExpired : Bool) : Bool :=
  rules.invoiceLength invoice.bolt11 && rules.hashLength invoice.paymentHash &&
  (rules.parseInvoice invoice.bolt11).any fun parsed =>
    parsed.expiresAt.any fun expiry =>
      decide (parsed.description = some quote.orderId) &&
      (allowExpired || decide (now < expiry)) &&
      decide (parsed.currency = quote.network) &&
      decide (parsed.amountMsat = some quote.offer.priceMsat) &&
      decide (parsed.paymentHash = invoice.paymentHash) &&
      decide (expiry ≤ quote.expiresAt) &&
      decide (quote.createdAt < expiry) &&
      decide (parsed.timestamp ≤ quote.expiresAt)

def validateRefundInvoice (rules : Rules Text) (now : ℕ) (quote : Quote Text)
    (invoice : Text) : Option Text :=
  if rules.invoiceLength invoice then
    ((rules.parseInvoice invoice).filter fun parsed =>
      decide (parsed.currency = quote.network) &&
      decide (parsed.amountMsat = some quote.offer.priceMsat) &&
      parsed.expiresAt.any fun expiry => decide (now < expiry)).map (·.paymentHash)
  else none

/-! ## The ledger -/

abbrev Ledger (Text : Type) := AList (fun _ : Text => Row Text)

namespace Ledger

def maxOrders : ℕ := 10000

variable (ledger : Ledger Text) (id : Text)

/-- A row that is there stays; `none` when the ledger is full. -/
def insertOrder (row : Row Text) : Option (Ledger Text) :=
  match ledger.lookup row.quote.orderId with
  | some _ => some ledger
  | none =>
    if ledger.entries.length < maxOrders then
      some (ledger.insert row.quote.orderId row)
    else none

/-- Update a row in state `old`; any other is a conflict. -/
def update (old : OrderState) (change : Row Text → Row Text) : Option (Ledger Text) :=
  match ledger.lookup id with
  | some row =>
    if row.state = old then some (ledger.insert id (change row)) else none
  | none => none

def state (old new : OrderState) : Option (Ledger Text) :=
  ledger.update id old fun row => { row with state := new }

def another (test : Row Text → Bool) : Bool :=
  ledger.entries.any fun entry => decide (entry.1 ≠ id) && test entry.2

def attachInvoice (id bolt11 hash : Text) : Option (Ledger Text) :=
  if ledger.another id fun row => decide (row.paymentHash = some hash) then
    none
  else
    ledger.update id .invoicePending fun row =>
      { row with state := .awaitingPayment, invoice := some bolt11, paymentHash := some hash }

/-- A note that any order has is refused, also the order's own. -/
def rotate (id noteId : Text) (rotation : Rotation Text) : Option (Ledger Text) :=
  if ledger.entries.any fun entry =>
      decide (entry.2.noteId = some noteId) then none
  else
    ledger.update id .quoted fun row =>
      { row with state := .lnurlPending, noteId := some noteId, rotation := some rotation }

def settle (old : OrderState) (reference : Reference Text) (rotation : Option (Rotation Text)) :
    Option (Ledger Text) :=
  if ledger.another id fun row =>
      decide (row.settlement = some reference) then none
  else
    ledger.update id old fun row =>
      { row with
        state := .settled
        settlement := some reference
        rotation := rotation.or row.rotation }

def activate (receipt : Receipt Text) : Option (Ledger Text) :=
  ledger.update id .settled fun row =>
    { row with state := .active, receipt := some receipt }

def startRefund (refund : RefundJournal Text) : Option (Ledger Text) :=
  if (ledger.lookup id).any fun row => row.refund.isSome then none
  else
    ledger.update id .refundRequired fun row =>
      { row with refund := some refund }

def updateRefund (refund : RefundJournal Text) : Option (Ledger Text) :=
  match (ledger.lookup id).bind (·.refund) with
  | none => none
  | some current =>
    if current.paymentHash = refund.paymentHash ∧ current.requestUrl = refund.requestUrl then
      ledger.update id .refundRequired fun row =>
        { row with refund := some refund }
    else none

def completeRefund (refund : RefundJournal Text) : Option (Ledger Text) :=
  if refund.refundedAt.isNone then none
  else
    ledger.update id .refundRequired fun row =>
      { row with state := .refunded, refund := some refund }

end Ledger

/-! ## Operations -/

inductive Pc (Text : Type)
  | quote (pubkey : Text) (request : QuoteRequest Text)
  | reserve (id : Text)
  | quoted (id : Text)
  | lightning (pubkey id commitment : Text)
  | createInvoice (id : Text) (quote : Quote Text)
  | attach (id : Text) (invoice : Invoice Text)
  | recoverInvoice (id : Text) (invoice : Invoice Text)
  | lnurlcash (pubkey id commitment input : Text)
  | noteInfo (id : Text) (quote : Quote Text) (issuer : Issuer Text)
      (note : Note Text)
  | journal (id : Text) (quote : Quote Text) (identity : Text)
      (rotation : Rotation Text)
  | rotate (id : Text) (quote : Quote Text) (rotation : Rotation Text)
  | certify (id : Text) (rotation : Rotation Text) (signature : Text)
  | check (pubkey id commitment : Text)
  | checkInvoice (id hash : Text)
  | settleInvoice (id hash : Text) (preimage : Bytes)
  | recover (id : Text) (quote : Quote Text) (rotation : Rotation Text)
  | fulfil (id : Text)
  | activate (id : Text) (receipt : Receipt Text)
  | refuse (id : Text)
  | refund (id : Text)
  | payRequest (id : Text) (quote : Quote Text) (destination : Text)
      (rotation : Rotation Text)
  | startRefund (id : Text) (quote : Quote Text)
      (refund : RefundJournal Text)
  | settledBefore (id : Text) (quote : Quote Text)
      (refund : RefundJournal Text)
  | melt (id : Text) (quote : Quote Text) (refund : RefundJournal Text)
  | updateRefund (id : Text) (refund : RefundJournal Text)
  | settledAfter (id : Text) (refund : RefundJournal Text)
  | complete (id : Text) (refund : RefundJournal Text)

structure NoteInfo (Text : Type) where
  callback : Text
  k1 : Text
  mintPubkey : Option Text
  maxWithdrawable : ℕ
  signature : Option Text

structure PayReply (Text : Type) where
  callback : Text
  minSendable : ℕ
  maxSendable : ℕ
  pr : Text
  verify : Option Text

structure VerifyReply (Text : Type) where
  pr : Text
  settled : Bool
  preimage : Option Bytes

/-- What the store, a backend, an issuer or a receiver answers; `failed` is
everything the operation takes as no answer. -/
inductive Reply (Text : Type)
  | failed
  | reserved
  | activated (receipt : Receipt Text)
  | unavailable
  | invoice (invoice : Invoice Text)
  | status (paid : Bool) (preimage : Option Bytes)
  /-- The reply of the issuer, and the secret generated after it. -/
  | noteInfo (info : NoteInfo Text) (secret : Text)
  | rotated (signature : Option Text)
  | pay (reply : PayReply Text)
  | melted (pr verify : Option Text)
  | verified (issuer receiver : Option (VerifyReply Text))

inductive Evidence (Text : Type)
  | preimage (bytes : Bytes)
  | certificate (signature : Text)

/-- A mutation that was sent, and what the journal held then. -/
structure Sent (Text : Type) where
  id : Text
  url : Text
  journalled : Option Text

structure State (Text : Type) where
  config : Config Text
  clock : ℕ
  ledger : Ledger Text
  task : Option (Pc Text)
  activated : List Text
  created : List Text
  rotations : List (Sent Text)
  melts : List (Sent Text)
  evidence : List (Text × Evidence Text)

namespace State

variable (rules : Rules Text) (state : State Text) (reply : Reply Text) (id : Text)

def goto (pc : Pc Text) : State Text :=
  { state with task := some pc }

def done : State Text :=
  { state with task := none }

/-- The ledger is written, or the write is a conflict and ends the
operation. -/
def write (ledger : Option (Ledger Text)) (next : State Text → State Text) : State Text :=
  match ledger with
  | some ledger => next { state with ledger := ledger }
  | none => state.done

def consent (pubkey id commitment : Text) : Option (Row Text) :=
  (state.ledger.lookup id).filter fun row =>
    decide (row.quote.signerPubkey = pubkey) && decide (row.digest = commitment)

/-! ### Quotes -/

def newQuote (pubkey : Text) (request : QuoteRequest Text) : Option (Quote Text) :=
  let issuer := state.config.issuers.find? fun issuer =>
    some issuer.id = request.issuerId
  let railOk : Bool := match request.rail with
    | .lightning => request.issuerId.isNone && state.config.lightning
    | .lnurlcash => state.config.notes && decide (state.config.network = .bitcoin) && issuer.isSome
  if railOk then
    ((state.config.offers.find? fun offer =>
        decide (offer.id = request.offerId)).filter
      fun offer => decide (state.clock + state.config.quoteSeconds +
        offer.durationSeconds + offer.graceSeconds ≤ 2 ^ 63 - 1)).map
      fun offer =>
        { orderId := rules.orderId pubkey request.requestId
          signerPubkey := pubkey
          network := state.config.network
          rail := request.rail
          offer := offer
          issuer := issuer
          createdAt := state.clock
          expiresAt := state.clock + state.config.quoteSeconds
          renews := request.renews
          refundTo := request.refundTo }
  else none

def quote (pubkey : Text) (request : QuoteRequest Text) : State Text :=
  let id := rules.orderId pubkey request.requestId
  if rules.id request.requestId ∧ rules.id request.offerId ∧ request.renews.all rules.id ∧
      request.refundTo.all rules.lightningAddress then
    match state.ledger.lookup id with
    | some row =>
      if row.request = request then state.goto (.reserve id) else state.done
    | none =>
      match state.newQuote rules pubkey request with
      | none => state.done
      | some quote =>
        state.write (state.ledger.insertOrder
          { request := request
            quote := quote
            digest := rules.quoteDigest quote })
          fun state => state.goto (.reserve id)
  else state.done

/-- `reserve`: the store holds the capacity until the quote expires. -/
def reserve : State Text :=
  match state.ledger.lookup id with
  | none => state.done
  | some row =>
    if row.state ≠ .reserving then state.done
    else if row.quote.expiresAt ≤ state.clock then
      state.write (state.ledger.state id .reserving .expired) done
    else
      match reply with
      | .reserved => state.goto (.quoted id)
      | _ => state.done

/-! ### Lightning -/

/-- `invoice_pending` is saved before the backend is asked. -/
def lightning (pubkey id commitment : Text) : State Text :=
  match state.consent pubkey id commitment with
  | none => state.done
  | some row =>
    if row.quote.rail = .lightning ∧ row.state = .quoted ∧
        state.clock < row.quote.expiresAt ∧ state.config.lightning then
      state.write (state.ledger.state id .quoted .invoicePending)
        fun state => state.goto (.createInvoice id row.quote)
    else state.done

variable (quote : Quote Text)

/-- The backend is asked for an invoice, which may fail or be interrupted. -/
def createInvoice : State Text :=
  let asked := { state with created := id :: state.created }
  match reply with
  | .invoice invoice =>
    if validateInvoice rules state.clock quote invoice false then
      asked.goto (.attach id invoice)
    else asked.done
  | _ => asked.done

def recoverInvoice (invoice : Invoice Text) : State Text :=
  match state.ledger.lookup id with
  | none => state.done
  | some row =>
    if row.state = .invoicePending ∧ row.quote.rail = .lightning ∧
        validateInvoice rules state.clock row.quote invoice true then
      state.goto (.attach id invoice)
    else state.done

/-! ### LNURLcash -/

def lnurlcash (pubkey id commitment input : Text) : State Text :=
  match state.consent pubkey id commitment, rules.resolveNote input with
  | some row, some note =>
    match row.quote.issuer with
    | none => state.done
    | some issuer =>
      if row.quote.rail = .lnurlcash ∧ row.state = .quoted ∧ state.clock < row.quote.expiresAt ∧
          issuer ∈ state.config.issuers ∧
          note.endpoint = issuer.noteEndpoint then
        state.goto (.noteInfo id row.quote issuer note)
      else state.done
  | _, _ => state.done

/-- The note is looked up, and a rotation into a new secret prepared. -/
def noteInfo (issuer : Issuer Text) (note : Note Text) : State Text :=
  match reply with
  | .noteInfo info secret =>
    if state.config.notes ∧ info.callback = issuer.callback ∧
        info.mintPubkey = some issuer.mintPubkey ∧
        info.maxWithdrawable = quote.offer.priceMsat ∧
        state.clock < quote.expiresAt then
      match rules.rotateRequest info.callback info.k1 secret with
      | none => state.done
      | some url =>
        state.goto (.journal id quote (rules.identity issuer.noteEndpoint issuer.mintPubkey
            note.noteId)
          { requestUrl := url
            newSecret := secret
            issuer := issuer.id
            mintPubkey := issuer.mintPubkey
            endpoint := issuer.noteEndpoint
            certificate := none })
    else state.done
  | _ => state.done

def rotate (rotation : Rotation Text) : State Text :=
  if state.config.notes ∧ state.config.issuers.any fun issuer =>
      decide (issuer.id = rotation.issuer) &&
      decide (issuer.mintPubkey = rotation.mintPubkey) &&
      decide (issuer.noteEndpoint = rotation.endpoint) &&
      rules.startsWithCallback rotation.requestUrl issuer.callback then
    let sent := { state with
      rotations :=
        { id := id
          url := rotation.requestUrl
          journalled := (state.ledger.lookup id).bind Row.rotationUrl } ::
            state.rotations }
    match reply with
    | .rotated (some signature) =>
      if rules.verifyNote rotation.newSecret rotation.endpoint
          quote.offer.priceMsat signature rotation.mintPubkey then
        sent.goto (.certify id rotation signature)
      else sent.done
    | _ => sent.done
  else state.done

def certify (rotation : Rotation Text) (signature : Text) : State Text :=
  state.write (state.ledger.settle id .lnurlPending (.lnurlcash (rules.digest rotation.requestUrl))
      (some { rotation with certificate := some signature }))
    fun state =>
      { state with evidence := (id, .certificate signature) :: state.evidence }.goto (.fulfil id)

/-- Look the replacement up before the rotation is sent once more. -/
def recover (rotation : Rotation Text) : State Text :=
  match state.config.issuers.find? fun issuer =>
      some issuer = quote.issuer with
  | none => state.done
  | some issuer =>
    match reply with
    | .noteInfo info _ =>
      match info.signature with
      | none => state.goto (.rotate id quote rotation)
      | some signature =>
        if state.config.notes ∧ info.callback = issuer.callback ∧
            info.mintPubkey = some rotation.mintPubkey ∧
            info.maxWithdrawable = quote.offer.priceMsat ∧
            rules.verifyNote rotation.newSecret rotation.endpoint
              quote.offer.priceMsat signature rotation.mintPubkey then
          state.goto (.certify id rotation signature)
        else state.goto (.rotate id quote rotation)
    | _ => state.goto (.rotate id quote rotation)

/-! ### Settlement -/

/-- `check`, and `reconcile` for the order's own signer and terms. -/
def check (pubkey id commitment : Text) : State Text :=
  match state.consent pubkey id commitment with
  | none => state.done
  | some row =>
    match row.state with
    | .awaitingPayment =>
      match row.paymentHash with
      | some hash =>
        if state.config.lightning then
          state.goto (.checkInvoice id hash)
        else state.done
      | none => state.done
    | .lnurlPending =>
      match row.rotation with
      | some rotation => state.goto (.recover id row.quote rotation)
      | none => state.done
    | .settled => state.goto (.fulfil id)
    | .reserving => state.goto (.reserve id)
    | .quoted | .expired | .invoicePending | .active | .refundRequired
    | .refunded => state.done

/-- Paid means a preimage of 32 bytes that hashes to the stored hash. -/
def checkInvoice (id hash : Text) : State Text :=
  match reply with
  | .status true (some preimage) =>
    if preimage.length = 32 ∧ rules.sha256 preimage = hash then
      state.goto (.settleInvoice id hash preimage)
    else state.done
  | _ => state.done

def settleInvoice (id hash : Text) (preimage : Bytes) : State Text :=
  state.write (state.ledger.settle id .awaitingPayment (.lightning hash) none)
    fun state =>
      { state with evidence := (id, .preimage preimage) :: state.evidence
      }.goto (.fulfil id)

/-- The store is always asked first: it may have activated the sale before. -/
def fulfil : State Text :=
  match reply with
  | .activated receipt =>
    { state with activated := id :: state.activated
    }.goto (.activate id receipt)
  | .unavailable => state.goto (.refuse id)
  | _ => state.done

/-! ### Refunds -/

def refund : State Text :=
  match state.ledger.lookup id with
  | none => state.done
  | some row =>
    if row.state = .refundRequired ∧ row.quote.rail = .lnurlcash then
      match row.quote.refundTo.filter rules.lightningAddress,
          row.rotation.filter fun rotation => rotation.certificate.isSome with
      | some destination, some rotation =>
        match row.refund with
        | none =>
          state.goto (.payRequest id row.quote destination rotation)
        | some refund => state.goto (.settledBefore id row.quote refund)
      | _, _ => state.done
    else state.done

/-- The receiver's invoice is checked and a melt of the note prepared. -/
def payRequest (destination : Text) (rotation : Rotation Text) : State Text :=
  match reply with
  | .pay pay =>
    if state.config.refunds ∧ rules.refundEndpoint pay.callback ∧
        pay.minSendable ≤ quote.offer.priceMsat ∧
        quote.offer.priceMsat ≤ pay.maxSendable ∧
        pay.verify.all (rules.sameOrigin pay.callback) then
      match validateRefundInvoice rules state.clock quote pay.pr,
          quote.issuer.bind fun issuer => rules.meltRequest issuer.callback
            rotation.newSecret pay.pr with
      | some hash, some url =>
        state.goto (.startRefund id quote
          { destination := destination
            invoice := pay.pr
            paymentHash := hash
            receiverVerify := pay.verify
            requestUrl := url
            issuerVerify := none
            refundedAt := none })
      | _, _ => state.done
    else state.done
  | _ => state.done

variable (refund : RefundJournal Text)

/-- One verification: an error, settled, or go on. -/
def verifyOne (address : Option Text) (reply : Option (VerifyReply Text)) : Option Bool :=
  match address, reply with
  | some _, some reply =>
    if !rules.sameInvoice reply.pr refund.invoice then none
    else if reply.settled then
      if reply.preimage.all fun bytes => decide (bytes.length = 32) &&
          decide (rules.sha256 bytes = refund.paymentHash) then some true
      else none
    else some false
  | _, _ => some false

/-- `refund_settled`: the issuer is asked first, then the receiver. -/
def refundSettled (issuer receiver : Option (VerifyReply Text)) : Option Bool :=
  if state.config.refunds then
    match verifyOne rules refund refund.issuerVerify issuer with
    | some false => verifyOne rules refund refund.receiverVerify receiver
    | result => result
  else some false

def settledBefore : State Text :=
  match reply with
  | .verified issuer receiver =>
    match state.refundSettled rules refund issuer receiver with
    | some true =>
      state.goto (.complete id { refund with refundedAt := some state.clock })
    | some false => state.goto (.melt id quote refund)
    | none => state.done
  | _ => state.goto (.melt id quote refund)

def melt : State Text :=
  if state.config.notes then
    let sent := { state with
      melts :=
        { id := id
          url := refund.requestUrl
          journalled := (state.ledger.lookup id).bind Row.meltUrl } ::
            state.melts }
    match reply with
    | .melted pr verify =>
      if pr.all fun invoice => rules.sameInvoice invoice refund.invoice then
        match verify with
        | none => sent.goto (.settledAfter id refund)
        | some address =>
          if quote.issuer.any fun issuer =>
              rules.sameOrigin issuer.callback address then
            sent.goto (.updateRefund id { refund with issuerVerify := some address })
          else sent.done
      else sent.done
    | _ => sent.done
  else state.done

def settledAfter : State Text :=
  match reply with
  | .verified issuer receiver =>
    match state.refundSettled rules refund issuer receiver with
    | some true =>
      state.goto (.complete id { refund with refundedAt := some state.clock })
    | _ => state.done
  | _ => state.done

/-! ### Steps -/

def advance : Pc Text → State Text
  | .quote pubkey request => state.quote rules pubkey request
  | .reserve id => state.reserve reply id
  | .quoted id => state.write (state.ledger.state id .reserving .quoted) done
  | .lightning pubkey id commitment => state.lightning pubkey id commitment
  | .createInvoice id quote => state.createInvoice rules reply id quote
  | .attach id invoice =>
    state.write (state.ledger.attachInvoice id invoice.bolt11 invoice.paymentHash) done
  | .recoverInvoice id invoice => state.recoverInvoice rules id invoice
  | .lnurlcash pubkey id commitment input =>
    state.lnurlcash rules pubkey id commitment input
  | .noteInfo id quote issuer note =>
    state.noteInfo rules reply id quote issuer note
  | .journal id quote identity rotation =>
    state.write (state.ledger.rotate id identity rotation)
      fun state => state.goto (.rotate id quote rotation)
  | .rotate id quote rotation => state.rotate rules reply id quote rotation
  | .certify id rotation signature => state.certify rules id rotation signature
  | .check pubkey id commitment => state.check pubkey id commitment
  | .checkInvoice id hash => state.checkInvoice rules reply id hash
  | .settleInvoice id hash preimage => state.settleInvoice id hash preimage
  | .recover id quote rotation => state.recover rules reply id quote rotation
  | .fulfil id => state.fulfil reply id
  | .activate id receipt =>
    state.write (state.ledger.activate id receipt) done
  | .refuse id =>
    state.write (state.ledger.state id .settled .refundRequired) done
  | .refund id => state.refund rules id
  | .payRequest id quote destination rotation =>
    state.payRequest rules reply id quote destination rotation
  | .startRefund id quote refund =>
    state.write (state.ledger.startRefund id refund)
      fun state => state.goto (.melt id quote refund)
  | .settledBefore id quote refund =>
    state.settledBefore rules reply id quote refund
  | .melt id quote refund => state.melt rules reply id quote refund
  | .updateRefund id refund =>
    state.write (state.ledger.updateRefund id refund)
      fun state => state.goto (.settledAfter id refund)
  | .settledAfter id refund => state.settledAfter rules reply id refund
  | .complete id refund =>
    state.write (state.ledger.completeRefund id refund) done

end State

/-! ## Runs -/

/-- The calls of buyers and of the operator. -/
inductive Request (Text : Type)
  | quote (pubkey : Text) (request : QuoteRequest Text)
  | lightning (pubkey id commitment : Text)
  | lnurlcash (pubkey id commitment input : Text)
  | check (pubkey id commitment : Text)
  | reconcile (id : Text)
  | recoverInvoice (id : Text) (invoice : Invoice Text)
  | refund (id : Text)

/-- Where a request begins.  `reconcile` reads the order before it takes the
lock, but neither its signer nor its terms ever change. -/
def Request.pc (state : State Text) : Request Text → Option (Pc Text)
  | .quote pubkey request => some (.quote pubkey request)
  | .lightning pubkey id commitment => some (.lightning pubkey id commitment)
  | .lnurlcash pubkey id commitment input =>
    some (.lnurlcash pubkey id commitment input)
  | .check pubkey id commitment => some (.check pubkey id commitment)
  | .reconcile id =>
    (state.ledger.lookup id).map fun row =>
      .check row.quote.signerPubkey id row.digest
  | .recoverInvoice id invoice => some (.recoverInvoice id invoice)
  | .refund id => some (.refund id)

/-- `stop` drops the operation, with the process or without; the process may
come up with another configuration. -/
inductive Action (Text : Type)
  | call (request : Request Text)
  | advance (reply : Reply Text)
  | stop
  | restart (config : Config Text)
  | time (clock : ℕ)

/-- The store never refuses a sale that it has activated. -/
def storeAllows (state : State Text) (reply : Reply Text) : Pc Text → Bool
  | .fulfil id =>
    match reply with
    | .unavailable => decide (id ∉ state.activated)
    | _ => true
  | _ => true

def step (rules : Rules Text) (state : State Text) : Action Text → Option (State Text)
  | .call request =>
    match state.task with
    | some _ => none
    | none => (request.pc state).map state.goto
  | .advance reply =>
    state.task.bind fun pc =>
      if storeAllows state reply pc then some (state.advance rules reply pc)
      else none
  | .stop => some state.done
  | .restart config => some { state.done with config := config }
  | .time clock => some { state with clock := clock }

def State.initial (config : Config Text) : State Text where
  config := config
  clock := 0
  ledger := ∅
  task := none
  activated := []
  created := []
  rotations := []
  melts := []
  evidence := []

end Checkout
end Wildbloom
