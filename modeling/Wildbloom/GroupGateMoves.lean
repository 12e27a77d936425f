import Wildbloom.GroupGateSoundness

/-!
# Every step of the gate is a move

A step of a request changes its own task and one part of the shared state at
most.  This file shows for each of the steps which move of `ClaimCache` it is,
and so that every run of the gate is a run of those moves.
-/

namespace Wildbloom
namespace GroupGate

open ClaimCache

variable {Key Hash : Type}

def Config.deviceSet (config : Config Key Hash) : Set Key :=
  {key | key ∈ config.devices}

variable {config : Config Key Hash} {state : State Key Hash} {id : ℕ}
variable {request found : Request Key Hash} {next : Shared Key Hash × Request Key Hash}
  {holdings : Holdings Hash} {shared : Shared Key Hash} {label : Label Key Hash ℕ} {hash : Hash}
  {size : ℕ} {key : Key} {upload : Upload Key Hash} {created : Bool} {mirror : Mirror Key Hash}
  {delete : Delete Key Hash} {cell : Cell Key Hash}

/-! ## The view after a step -/

theorem State.tasks_of_request (hrequest : state.requests id = some request) :
    (state.view config).tasks id = request.task config := by
  simp [State.view, State.tasks, hrequest]

theorem State.view_put (hrequest : state.requests id = some request)
    (hkept : next.2.kept = request.kept) (hdeletions : next.1.deletions = state.shared.deletions) :
    (state.put id next).view config =
      { state.view config with
        claims := {claim | claim ∈ next.1.store.claims}
        known := next.1.cell.known
        unread := next.1.cell.unread config }.setTask id
          (next.2.task config) := by
  have htasks : (state.put id next).tasks config =
      Function.update (state.tasks config) id (next.2.task config) := by
    funext other
    by_cases heq : other = id <;> simp [State.tasks, State.put, heq]
  have hstanding : (state.put id next).standing = state.standing := by
    ext claim
    simp only [State.standing, State.put, Set.mem_ofPred_eq, hdeletions]
    by_cases heq : claim.1 = id
    · simp [heq, hrequest, hkept]
    · simp [heq]
  simp only [State.view, View.setTask, htasks, hstanding]
  rfl

theorem setTask_self (view : View Key Hash ℕ) {task : Task Key Hash}
    (htask : view.tasks id = task) : view.setTask id task = view := by
  unfold View.setTask
  rw [← htask, Function.update_eq_self]

section

variable (hrequest : state.requests id = some request)
  (hkept : next.2.kept = request.kept)
  (hdeletions : next.1.deletions = state.shared.deletions)
  (hstore : next.1.store = state.shared.store)
include hrequest hkept hdeletions hstore

theorem move_same (hknown : next.1.cell.known = state.shared.cell.known)
    (hunread : next.1.cell.unread config = state.shared.cell.unread config)
    (htask : next.2.task config = request.task config) :
    Move config.deviceSet (state.view config) .quiet ((state.put id next).view config) := by
  rw [State.view_put hrequest hkept hdeletions, hstore, hknown, hunread, htask]
  have hsame := setTask_self (state.view config) (State.tasks_of_request hrequest)
  simp only [State.view] at hsame ⊢
  rw [hsame]
  exact Move.rest _

/-- A step that changes neither claims nor holdings nor its own task. -/
theorem move_rest (hcell : next.1.cell = state.shared.cell)
    (htask : next.2.task config = request.task config) :
    Move config.deviceSet (state.view config) .quiet ((state.put id next).view config) :=
  move_same hrequest hkept hdeletions hstore (by rw [hcell])
    (by rw [hcell]) htask

theorem move_leave (hcell : next.1.cell = state.shared.cell)
    (hbefore : request.task config = .none ∨ ∃ key hash, request.task config = .risk key hash false)
    (htask : next.2.task config = .none) :
    Move config.deviceSet (state.view config) .quiet ((state.put id next).view config) := by
  rcases hbefore with hbefore | ⟨key, hash, hbefore⟩
  · exact move_rest hrequest hkept hdeletions hstore hcell (htask.trans hbefore.symm)
  · rw [State.view_put hrequest hkept hdeletions, hstore, hcell, htask]
    have hrisk : (state.view config).tasks id = .risk key hash false := by
      rw [State.tasks_of_request hrequest, hbefore]
    exact Move.leave _ id key hash hrisk

end

/-! ## Accesses to the holdings -/

theorem Cell.known_of_ready (hready : cell.ready id = some holdings) :
    cell.known = {hash | holdings.contains hash = true} := by
  obtain rfl | ⟨cursor, rfl⟩ := Cell.ready_cases hready
  · rfl
  · rfl

theorem Cell.unread_of_ready (hready : cell.ready id = some holdings) : cell.unread config = ∅ := by
  obtain rfl | ⟨cursor, rfl⟩ := Cell.ready_cases hready
  · rfl
  · simp [Cell.unread]

theorem Request.not_owing_of_early (hearly : request.Early) (key : Key)
    (hash : Hash) : request.task config ≠ .owes key hash := by
  cases request with
  | upload work =>
    simp only [Request.Early] at hearly
    simp only [Request.task, Upload.task]
    cases hpc : work.pc <;> simp_all
  | mirror work =>
    simp only [Request.Early] at hearly
    simp only [Request.task, Mirror.task]
    cases hpc : work.pc <;> simp_all
  | delete work =>
    simp only [Request.task, Delete.task]
    split <;> simp

variable (hrequest : state.requests id = some request) (hkept : found.kept = request.kept)
  (hready : state.shared.cell.ready id = some holdings)

section

include hrequest hkept hready

theorem State.view_put_read : (state.put id
      ({ state.shared with cell := .idle (some holdings) }, found)).view
        config = (state.view config).setTask id (found.task config) := by
  have hknown := Cell.known_of_ready hready
  have hunread : state.shared.cell.unread config = ∅ :=
    Cell.unread_of_ready hready
  rw [State.view_put hrequest hkept rfl]
  simp only [State.view, hknown, hunread]
  rfl

theorem move_check {looked : Bool} (hnone : request.task config = .none)
    (hkey : key ∈ config.deviceSet) (hfound : found.task config = .none ∨
      found.task config = .risk key hash false ∧ (looked = true → holdings.contains hash = false)) :
    Move config.deviceSet (state.view config) (.check id key hash looked) ((state.put id
        ({ state.shared with cell := .idle (some holdings) }, found)).view config) := by
  have htask := (State.tasks_of_request hrequest).trans hnone
  rw [State.view_put_read hrequest hkept hready]
  rcases hfound with hfound | ⟨hfound, hunknown⟩
  · rw [hfound, setTask_self _ htask]
    exact Move.checkKnown _ id key hash looked
  · rw [hfound]
    refine Move.checkUnknown _ id key hash looked htask (Cell.unread_of_ready hready) ?_ hkey
    intro hlooked hknown
    have hcontains : hash ∈ state.shared.cell.known := hknown
    rw [Cell.known_of_ready hready, Set.mem_ofPred_eq, hunknown hlooked] at hcontains
    cases hcontains

theorem move_read (hsame : found.task config = request.task config) :
    Move config.deviceSet (state.view config) .quiet ((state.put id
        ({ state.shared with cell := .idle (some holdings) }, found)).view config) := by
  rw [State.view_put_read hrequest hkept hready, hsame,
    setTask_self _ (State.tasks_of_request hrequest)]
  exact Move.rest _

end

/-! ## Claims -/

section

variable (hdeletions : shared.deletions = state.shared.deletions)
  (hcell : shared.cell = state.shared.cell)
  (hclaims : ∀ claim, claim ∈ shared.store.claims ↔
    claim = (key, hash) ∨ claim ∈ state.shared.store.claims)
include hrequest hkept hdeletions hcell hclaims

/-- A step that makes a claim, to keep or on trial, for a mirror or an upload
that does not keep it. -/
theorem State.view_put_claim :
    (state.put id (shared, found)).view config = ((state.view config).addClaim key hash).setTask id
        (found.task config) := by
  have hset : {claim | claim ∈ shared.store.claims} =
      insert (key, hash) {claim | claim ∈ state.shared.store.claims} := by
    ext claim
    exact hclaims claim
  rw [State.view_put hrequest hkept hdeletions, hset, hcell]
  rfl

theorem move_claimOnTrial (hkey : key ∈ config.deviceSet)
    (hbefore : request.task config = .risk key hash false)
    (hfound : found.task config = .risk key hash true) :
    Move config.deviceSet (state.view config) (.claim id key hash false false)
      ((state.put id (shared, found)).view config) := by
  rw [State.view_put_claim hrequest hkept hdeletions hcell hclaims, hfound]
  refine Move.claimOnTrial _ id key hash ?_ hkey
  rw [State.tasks_of_request hrequest, hbefore]

theorem move_claimKept (hkey : key ∈ config.deviceSet) (hbefore : request.task config = .none)
    (hfound : found.task config = .owes key hash) :
    Move config.deviceSet (state.view config) (.claim id key hash true false)
      ((state.put id (shared, found)).view config) := by
  rw [State.view_put_claim hrequest hkept hdeletions hcell hclaims, hfound]
  refine Move.claimKept _ id key hash ?_ hkey
  rw [State.tasks_of_request hrequest, hbefore]

end

/-- An upload that makes its claim to keep starts to count as standing. -/
theorem State.standing_claimed (hrequest : state.requests id = some (.upload upload))
    (hdeletions : shared.deletions = state.shared.deletions) : (state.put id
      (shared, .upload (upload.claimed state.shared created))).standing =
      insert (id, upload.signer, upload.hash) state.standing := by
  ext ⟨other, key, hash⟩
  simp only [State.standing, State.put, Set.mem_ofPred_eq, hdeletions,
    Set.mem_insert_iff, Prod.mk.injEq]
  by_cases heq : other = id
  · simp only [heq, Function.update_self, Option.bind_some, Request.kept,
      Upload.claimed, Option.map_some, Option.some.injEq, Prod.mk.injEq,
      hrequest, Option.map_eq_some_iff, true_and]
    constructor
    · intro hclaim
      exact Or.inl ⟨hclaim.1.symm, hclaim.2.1.symm⟩
    · intro hclaim
      rcases hclaim with ⟨hkey, hhash⟩ | ⟨count, _, hkey, hhash, _⟩
      · rw [hkey, hhash]
        exact ⟨rfl, rfl, rfl⟩
      · rw [← hkey, ← hhash]
        exact ⟨rfl, rfl, rfl⟩
  · simp [heq]

theorem move_claimed (hrequest : state.requests id = some (.upload upload))
    (hdeletions : shared.deletions = state.shared.deletions)
    (hcell : shared.cell = state.shared.cell)
    (hclaims : ∀ claim, claim ∈ shared.store.claims ↔ claim = (upload.signer, upload.hash) ∨
        claim ∈ state.shared.store.claims)
    (hkey : upload.signer ∈ config.deviceSet) (hbefore : upload.task = .none) :
    Move config.deviceSet (state.view config) (.claim id upload.signer upload.hash true true)
      ((state.put id (shared, .upload (upload.claimed state.shared created))).view config) := by
  have hset : {claim | claim ∈ shared.store.claims} = insert (upload.signer, upload.hash)
        {claim | claim ∈ state.shared.store.claims} := by
    ext claim
    exact hclaims claim
  have htasks : (state.put id
        (shared, .upload (upload.claimed state.shared created))).tasks config =
        Function.update (state.tasks config) id (.owes upload.signer upload.hash) := by
    funext other
    by_cases heq : other = id
    · simp [State.tasks, State.put, heq, Request.task, Upload.task, Upload.claimed]
    · simp [State.tasks, State.put, heq]
  have hview : (state.put id (shared, .upload (upload.claimed state.shared created))).view config =
        (((state.view config).addClaim upload.signer upload.hash).count id
          upload.signer upload.hash).setTask id (.owes upload.signer upload.hash) := by
    simp only [State.view, View.addClaim, View.count, View.setTask, htasks,
      State.standing_claimed hrequest hdeletions]
    simp only [State.put, hset, hcell]
  rw [hview]
  refine Move.claimCounted _ id upload.signer upload.hash ?_ hkey
  rw [State.tasks_of_request hrequest]
  exact hbefore

theorem Upload.HangUp.move {next : Shared Key Hash × Upload Key Hash}
    (hrequest : state.requests id = some (.upload upload))
    (hstep : Upload.HangUp state.shared upload next) :
    Move config.deviceSet (state.view config) .quiet
      ((state.put id (next.1, .upload next.2)).view config) := by
  cases hstep with
  | wait | drop => exact move_rest hrequest rfl rfl rfl rfl rfl
  | leave hpc =>
    refine move_leave hrequest rfl rfl rfl rfl ?_ rfl
    rcases hpc with hpc | hpc | hpc | hpc <;> simp only [Request.task, Upload.task, hpc]
    case inr.inr.inr => simp
    all_goals exact Task.riskUnless_cases _ _ _

theorem State.view_start {order : Order Key Hash} (hsound : state.requests state.started = none) :
    ({ state with
        requests :=
          Function.update state.requests state.started (some order.request)
        started := state.started + 1 } : State Key Hash).view config =
      state.view config := by
  have hrequest : order.request.task config = .none ∧ order.request.kept = none := by
    cases order <;> exact ⟨rfl, rfl⟩
  have htasks : ∀ id, ({ state with
          requests :=
            Function.update state.requests state.started (some order.request)
          started := state.started + 1 } : State Key Hash).tasks config id =
        state.tasks config id := by
    intro id
    by_cases heq : id = state.started
    · simp [State.tasks, heq, hsound, hrequest.1]
    · simp [State.tasks, heq]
  have hstanding : ({ state with
          requests :=
            Function.update state.requests state.started (some order.request)
          started := state.started + 1 } : State Key Hash).standing =
        state.standing := by
    ext claim
    simp only [State.standing, Set.mem_ofPred_eq]
    by_cases heq : claim.1 = state.started
    · simp [heq, hsound, hrequest.2]
    · simp [heq]
  simp only [State.view, hstanding]
  congr 1
  funext id
  exact htasks id

theorem move_outside {store : Store Key Hash} (hsame : ∀ key ∈ config.devices, ∀ hash,
      (key, hash) ∈ store.claims ↔ (key, hash) ∈ state.shared.store.claims) :
    Move config.deviceSet (state.view config) .quiet
      (({ state with shared := { state.shared with store := store } } :
        State Key Hash).view config) :=
  Move.outside _ {claim | claim ∈ store.claims} hsame

/-! ## Changes of the holdings -/

variable [DecidableEq Hash]

theorem Config.known_nextPage (device : Key) (rest : List Key)
    (found : Holdings Hash) (page : List Hash) :
    (config.nextPage id device rest found page).known =
      {hash | found.contains hash = true} ∪ {hash | hash ∈ page} := by
  have hpage : ∀ hash, (config.insertPage found page).contains hash = true ↔
        found.contains hash = true ∨ hash ∈ page := by
    intro hash
    simp [or_comm]
  unfold Config.nextPage
  split <;>
  · ext hash
    exact hpage hash

section

include hrequest hkept hready

theorem State.view_put_insert : (state.put id
      ({ state.shared with cell := .idle (some (holdings.insert hash size)) }, found)).view config =
      ((state.view config).learn hash).setTask id (found.task config) := by
  have hknown := Cell.known_of_ready hready
  have hunread : state.shared.cell.unread config = ∅ :=
    Cell.unread_of_ready hready
  have hinsert : (Cell.idle (some (holdings.insert hash size)) :
        Cell Key Hash).known = insert hash state.shared.cell.known := by
    rw [hknown]
    ext other
    simp [Cell.known]
  rw [State.view_put hrequest hkept rfl, hinsert]
  simp only [State.view, View.learn, hunread]
  rfl

/-- A request records its blob in the holdings and is done with its claim. -/
theorem move_record
    (hbefore : request.task config = .owes key hash ∨ request.task config = .risk key hash true)
    (hkey : key ∈ config.deviceSet) (hfound : found.task config = .none) :
    Move config.deviceSet (state.view config) (.record id key hash) ((state.put id
        ({ state.shared with cell := .idle (some (holdings.insert hash size)) },
          found)).view config) := by
  rw [State.view_put_insert hrequest hkept hready, hfound]
  refine Move.record _ id key hash ?_ hkey
  rw [State.tasks_of_request hrequest]
  exact hbefore

theorem move_drop (hbefore : request.task config = .removing hash [])
    (hfound : found.task config = .none) :
    Move config.deviceSet (state.view config) .quiet ((state.put id
        ({ state.shared with cell := .idle (some (holdings.remove hash)) },
          found)).view config) := by
  have hknown : (Cell.idle (some (holdings.remove hash)) : Cell Key Hash).known =
        state.shared.cell.known \ {hash} := by
    rw [Cell.known_of_ready hready]
    ext other
    simp [Cell.known, and_comm]
  have hunread : state.shared.cell.unread config = ∅ :=
    Cell.unread_of_ready hready
  have hview : (state.put id ({ state.shared with cell := .idle (some (holdings.remove hash)) },
          found)).view config =
        ((state.view config).forget hash).setTask id .none := by
    rw [State.view_put hrequest hkept rfl, hknown, hfound]
    simp only [State.view, View.forget, hunread]
    rfl
  rw [hview]
  refine Move.drop _ id hash ?_
  rw [State.tasks_of_request hrequest, hbefore]

end

/-- A mirror that is over the ceiling drops its blob from the holdings. -/
theorem move_overrun (hrequest : state.requests id = some (.mirror mirror))
    (hpc : mirror.pc = .verdict created) (hheld : mirror.held = false)
    (hready : state.shared.cell.ready id = some holdings) :
    Move config.deviceSet (state.view config) (.overrun mirror.hash) ((state.put id
        ({ state.shared with cell := .judging id mirror.hash (holdings.insert mirror.hash size) },
          .mirror (mirror.goto .overTakeBack))).view config) := by
  have hknown : (Cell.judging id mirror.hash (holdings.insert mirror.hash size) :
        Cell Key Hash).known = state.shared.cell.known \ {mirror.hash} := by
    rw [Cell.known_of_ready hready]
    ext hash
    by_cases heq : hash = mirror.hash <;> simp [Cell.known, heq]
  have hunread : state.shared.cell.unread config = ∅ :=
    Cell.unread_of_ready hready
  have htask : (Request.mirror (mirror.goto .overTakeBack)).task config =
      (Request.mirror mirror).task config := by
    simp [Request.task, Mirror.task, Mirror.goto, hpc, hheld]
  have hview : (state.put id
        ({ state.shared with cell := .judging id mirror.hash (holdings.insert mirror.hash size) },
          .mirror (mirror.goto .overTakeBack))).view config =
        (state.view config).forget mirror.hash := by
    have hsame := setTask_self ((state.view config).forget mirror.hash)
      (State.tasks_of_request hrequest)
    rw [State.view_put hrequest rfl rfl, hknown, htask]
    simp only [State.view, View.forget, hunread] at hsame ⊢
    exact hsame
  rw [hview]
  exact Move.overrun _ mirror.hash

variable [DecidableEq Key]

/-- The claims that were unread and still are after a page: a claim of the
device that is not on its last page was found before. -/
theorem Config.unread_nextPage {device : Key} {rest : List Key}
    {cursor : Option Hash} {found : Holdings Hash} {page : List Hash}
    (hsound : SharedSound config shared)
    (hcell : shared.cell = .rebuilding id (device :: rest) cursor found)
    (hpage : shared.store.listClaims device cursor pageSize = some page) :
    ∀ claim ∈ shared.cell.unread config, claim.1 ∈ config.deviceSet →
      claim ∈ {claim | claim ∈ shared.store.claims} →
        claim ∈ (config.nextPage id device rest found page).unread config ∨ claim.2 ∈ page := by
  intro claim hunread _ hclaim
  have hlisting := hsound.listing
  rw [hcell] at hunread hlisting
  have hlisted := hlisting.2 device rest rfl
  obtain ⟨htodo, hfound⟩ := hunread
  by_cases hmem : claim.2 ∈ page
  · exact Or.inr hmem
  · left
    have hnot : ¬ (config.insertPage found page).contains claim.2 = true := by
      simp [hmem, hfound]
    unfold Config.nextPage
    split
    · exact ⟨htodo, hnot⟩
    next hshort =>
      rcases List.mem_cons.mp htodo with hdevice | hrest
      · exfalso
        have hheld : (device, claim.2) ∈ shared.store.claims := by
          rw [← hdevice]
          exact hclaim
        rcases hlisted.last hpage hshort hheld with hseen | hnew
        · exact hfound hseen
        · exact hmem hnew
      · exact ⟨hrest, hnot⟩

theorem Sound.not_owing (hsound : Sound config state)
    (hunbuilt : state.shared.cell.Unbuilt) (other : ℕ) (key : Key) (hash : Hash) :
    (state.view config).tasks other ≠ .owes key hash := by
  cases hrequest : state.requests other with
  | none =>
    have htask : (state.view config).tasks other = .none := by
      simp [State.view, State.tasks, hrequest]
    rw [htask]
    simp
  | some request =>
    rw [State.tasks_of_request hrequest]
    exact Request.not_owing_of_early (hsound.early hunbuilt other request hrequest) key hash

/-- An access to the holdings is a move when what it does with them is one. -/
theorem move_access {Work Result : Type} (embed : Work → Request Key Hash)
    {f : Holdings Hash → Cell Key Hash × Result} {stay : Work}
    {refuse : Shared Key Hash → Shared Key Hash × Work}
    {proceed : Shared Key Hash → Result → Shared Key Hash × Work} {next : Shared Key Hash × Work}
    {label : Holdings Hash → Label Key Hash ℕ} (hsound : Sound config state)
    (hrequest : state.requests id = some (embed stay))
    (haccess : AccessStep config state.shared id f stay refuse proceed next)
    (hstay : state.shared.cell.Unbuilt → (embed stay).task config = .none ∨
        ∃ hash, (embed stay).task config = .removing hash [])
    (hrefuse : ∀ shared, (refuse shared).1.store = shared.store ∧
        (refuse shared).1.cell = shared.cell ∧
        (refuse shared).1.deletions = shared.deletions ∧
        (embed (refuse shared).2).kept = (embed stay).kept ∧
        (embed (refuse shared).2).task config = .none)
    (hproceed : ∀ holdings, state.shared.cell.ready id = some holdings →
      Move config.deviceSet (state.view config) (label holdings) ((state.put id
          ((proceed { state.shared with cell := (f holdings).1 } (f holdings).2).1,
            embed (proceed { state.shared with cell := (f holdings).1 }
              (f holdings).2).2)).view config)) :
    Move config.deviceSet (state.view config) (accessLabel state.shared id label)
      ((state.put id (next.1, embed next.2)).view config) := by
  cases haccess with
  | build hcell =>
    have hlabel : accessLabel state.shared id label = .quiet := by
      simp [accessLabel, hcell, Cell.ready]
    have hview : (state.put id
          ({ state.shared with cell := .rebuilding id config.devices none .empty },
            embed stay)).view config = state.view config := by
      rw [State.view_put hrequest rfl rfl]
      have hsame := setTask_self (state.view config) (State.tasks_of_request hrequest)
      have hknown : (Cell.rebuilding id config.devices none .empty :
            Cell Key Hash).known = (Cell.idle none : Cell Key Hash).known := by
        simp [Cell.known, Holdings.empty, Holdings.contains]
      have hunread : (Cell.rebuilding id config.devices none .empty :
            Cell Key Hash).unread config = (Cell.idle none).unread config := by
        simp [Cell.unread, Holdings.empty, Holdings.contains]
      simp only [State.view, hcell, hknown, hunread] at hsame ⊢
      exact hsame
    rw [hlabel, hview]
    exact Move.rest _
  | page hcell hpage =>
    rename_i device rest cursor found page
    have hlabel : accessLabel state.shared id label = .list device page := by
      simp [accessLabel, hcell, Cell.ready, hpage]
    have hdevice : device ∈ config.deviceSet := by
      have hlisting := hsound.shared.listing
      rw [hcell] at hlisting
      exact hlisting.1 device List.mem_cons_self
    have hview : (state.put id
          ({ state.shared with cell := config.nextPage id device rest found page },
            embed stay)).view config =
          (state.view config).read page
            ((config.nextPage id device rest found page).unread config) := by
      rw [State.view_put hrequest rfl rfl, Config.known_nextPage]
      have hsame := setTask_self ((state.view config).read page
          ((config.nextPage id device rest found page).unread config))
        (State.tasks_of_request hrequest)
      simp only [State.view, View.read, hcell] at hsame ⊢
      exact hsame
    rw [hlabel, hview]
    exact Move.list _ device page _ hdevice
      (fun hash hhash => Store.mem_of_listClaims hpage hhash)
      (Config.unread_nextPage hsound.shared hcell hpage)
  | refuse hcell hpage =>
    have hlabel : accessLabel state.shared id label = .quiet := by
      simp [accessLabel, hcell, Cell.ready, hpage]
    obtain ⟨hstore, hidle, hdeletions, hkept, htask⟩ :=
      hrefuse { state.shared with cell := .idle none }
    have hunbuilt : state.shared.cell.Unbuilt := by
      rw [hcell]
      trivial
    rw [hlabel, State.view_put hrequest hkept hdeletions, hstore, hidle, htask]
    refine Move.abandon _ id {claim | claim.1 ∈ config.devices} ?_
      (hsound.not_owing hunbuilt) (fun key hkey _ => hkey)
    rw [State.tasks_of_request hrequest]
    exact hstay hunbuilt
  | proceed hready =>
    rename_i holdings
    have hlabel : accessLabel state.shared id label = label holdings := by
      simp [accessLabel, hready]
    rw [hlabel]
    exact hproceed holdings hready

include hrequest hkept in
theorem move_takeBack (hbefore : request.task config = .risk key hash true)
    (hfound : found.task config = .none) :
    Move config.deviceSet (state.view config) .quiet ((state.put id ({ state.shared with
            store := (state.shared.store.deleteClaim key hash).1 },
          found)).view config) := by
  have hset : {claim | claim ∈ (state.shared.store.deleteClaim key hash).1.claims} =
        {claim | claim ∈ state.shared.store.claims} \ {(key, hash)} := by
    ext claim
    exact state.shared.store.mem_deleteClaim key hash claim
  rw [State.view_put hrequest hkept rfl, hset, hfound]
  refine Move.takeBack _ id key hash ?_
  rw [State.tasks_of_request hrequest, hbefore]

/-! ## The steps of uploads -/

theorem Upload.Step.move {next : Shared Key Hash × Upload Key Hash} (hsound : Sound config state)
    (hrequest : state.requests id = some (.upload upload))
    (hstep : Upload.Step config state.shared id upload label next) :
    Move config.deviceSet (state.view config) label
      ((state.put id (next.1, .upload next.2)).view config) := by
  have hkey : upload.signer ∈ config.deviceSet :=
    hsound.device id _ hrequest
  cases hstep with
  | busy hpc | lockReserved hpc hfree | judge hpc | prove hpc hlength | stream hpc
  | release hpc hfree =>
    refine move_rest hrequest rfl rfl rfl rfl ?_
    simp only [Request.task, Upload.task, Upload.goto, hpc]
  | acquire hpc =>
    refine move_rest hrequest rfl rfl rfl rfl ?_
    simp only [Request.task, Upload.task, hpc]
  | check hpc haccess =>
    have hnone : upload.task = .none := by simp only [Upload.task, hpc]
    refine move_access .upload hsound hrequest haccess
      (fun _ => Or.inl hnone) (fun _ => ⟨rfl, rfl, rfl, rfl, rfl⟩) ?_
    intro holdings hready
    refine move_check hrequest ?_ hready hnone hkey ?_
    · rfl
    · simp only [Request.task, Upload.task, reading]
      cases holdings.contains upload.hash with
      | true => exact Or.inl rfl
      | false => exact Or.inr ⟨rfl, fun _ => rfl⟩
  | readTotal hpc haccess =>
    refine move_access .upload hsound hrequest haccess
      (fun hunbuilt => absurd (hsound.early hunbuilt id _ hrequest) (by simp [Request.Early, hpc]))
      (fun _ => ⟨rfl, rfl, rfl, rfl, rfl⟩) ?_
    intro holdings hready
    refine move_read hrequest ?_ hready ?_
    · rfl
    · simp only [Request.task, Upload.task, Upload.goto, hpc]
  | full hpc =>
    refine move_leave hrequest rfl rfl rfl rfl ?_ rfl
    simp only [Request.task, Upload.task, hpc]
    exact Task.riskUnless_cases _ _ _
  | admitted hpc hfits =>
    unfold Upload.resume
    split
    · refine move_leave hrequest rfl rfl rfl rfl ?_ rfl
      simp only [Request.task, Upload.task, hpc]
      exact Task.riskUnless_cases _ _ _
    · refine move_rest hrequest rfl rfl rfl rfl ?_
      simp only [Request.task, Upload.task, Upload.goto, hpc]
      cases upload.held <;> rfl
  | giveUp answer hpc hanswer =>
    refine move_leave hrequest rfl rfl rfl rfl ?_ rfl
    rcases hpc with hpc | hpc | hpc | hpc | hpc <;> simp only [Request.task, Upload.task, hpc]
    case inr.inr.inr.inl | inr.inr.inr.inr => simp
    all_goals exact Task.riskUnless_cases _ _ _
  | lookupStored hpc hheld =>
    refine move_leave hrequest rfl rfl rfl rfl ?_ ?_
    · simp only [Request.task, Upload.task, hpc]
      exact Task.riskUnless_cases _ _ _
    · simp only [Request.task, Upload.task, Bool.or_true]
      rfl
  | lookupOther hpc =>
    refine move_rest hrequest rfl rfl rfl rfl ?_
    simp only [Request.task, Upload.task, hpc, Bool.or_false]
  | claimOnTrial hpc hheld hproven =>
    refine move_claimOnTrial hrequest ?_ rfl rfl
      (state.shared.store.mem_addClaim upload.signer upload.hash) hkey ?_ ?_
    · rfl
    · simp only [Request.task, Upload.task, hpc, hheld, hproven]
      rfl
    · rfl
  | claim hpc hkept =>
    refine move_claimed hrequest ?_ ?_
      (state.shared.store.mem_addClaim upload.signer upload.hash) hkey ?_
    · rfl
    · rfl
    · simp only [Upload.task, hpc, hkept]
      rfl
  | reserve hpc hproven =>
    unfold Upload.resume
    split <;>
    · refine move_leave hrequest rfl rfl rfl rfl ?_ rfl
      simp only [Request.task, Upload.task, hpc]
      exact Task.riskUnless_cases _ _ _
  | takeBack hpc =>
    refine move_takeBack hrequest ?_ ?_ ?_
    · rfl
    · simp only [Request.task, Upload.task, hpc]
    · rfl
  | commit hpc hlength =>
    refine move_claimed hrequest ?_ ?_
      (state.shared.store.mem_commit upload.signer upload.hash) hkey ?_
    · rfl
    · rfl
    · simp only [Upload.task, hpc]
  | record hpc haccess =>
    refine move_access .upload hsound hrequest haccess
      (fun hunbuilt => absurd (hsound.early hunbuilt id _ hrequest) (by simp [Request.Early, hpc]))
      (fun _ => ⟨rfl, rfl, rfl, rfl, rfl⟩) ?_
    intro holdings hready
    refine move_record hrequest ?_ hready (Or.inl ?_) hkey ?_
    · rfl
    · simp only [Request.task, Upload.task, hpc]
    · rfl

/-! ## The steps of mirrors -/

theorem Mirror.Step.move {next : Shared Key Hash × Mirror Key Hash} (hsound : Sound config state)
    (hrequest : state.requests id = some (.mirror mirror))
    (hstep : Mirror.Step config state.shared id mirror label next) :
    Move config.deviceSet (state.view config) label
      ((state.put id (next.1, .mirror next.2)).view config) := by
  have hkey : mirror.signer ∈ config.deviceSet :=
    hsound.device id _ hrequest
  cases hstep with
  | readReserved hpc hfree =>
    refine move_rest hrequest rfl rfl rfl rfl ?_
    simp only [Request.task, Mirror.task, hpc]
  | check hpc haccess =>
    have hnone : mirror.task = .none := by simp only [Mirror.task, hpc]
    refine move_access .mirror hsound hrequest haccess
      (fun _ => Or.inl hnone) (fun _ => ⟨rfl, rfl, rfl, rfl, rfl⟩) ?_
    intro holdings hready
    dsimp only [reading]
    split
    · refine move_check hrequest ?_ hready hnone hkey (Or.inl ?_) <;> rfl
    · split
      · refine move_check hrequest ?_ hready hnone hkey (Or.inl ?_) <;> rfl
      · refine move_check hrequest ?_ hready hnone hkey ?_
        · rfl
        · simp only [Request.task, Mirror.task]
          cases hheld : mirror.named && holdings.contains mirror.hash with
          | true => exact Or.inl rfl
          | false =>
            refine Or.inr ⟨rfl, ?_⟩
            intro hnamed
            rw [hnamed, Bool.true_and] at hheld
            exact hheld
  | forward hpc =>
    cases hheld : mirror.held with
    | true =>
      refine move_claimKept hrequest ?_ ?_ ?_
        (state.shared.store.mem_commit mirror.signer mirror.hash) hkey ?_ ?_
      · rfl
      · rfl
      · rfl
      · simp only [Request.task, Mirror.task, hpc, hheld]
        rfl
      · simp [Request.task, Mirror.task, Mirror.goto, hheld]
    | false =>
      refine move_claimOnTrial hrequest ?_ ?_ ?_
        (state.shared.store.mem_commit mirror.signer mirror.hash) hkey ?_ ?_
      · rfl
      · rfl
      · rfl
      · simp only [Request.task, Mirror.task, hpc, hheld]
        rfl
      · simp [Request.task, Mirror.task, Mirror.goto, hheld]
  | giveUp hpc =>
    refine move_leave hrequest rfl rfl rfl rfl ?_ rfl
    simp only [Request.task, Mirror.task, hpc]
    exact Task.riskUnless_cases _ _ _
  | takeBack hpc hheld =>
    refine move_takeBack hrequest ?_ ?_ ?_
    · rfl
    · simp [Request.task, Mirror.task, hpc, hheld]
    · rfl
  | verdict hpc haccess =>
    refine move_access .mirror hsound hrequest haccess
      (fun hunbuilt => absurd (hsound.early hunbuilt id _ hrequest) (by simp [Request.Early, hpc]))
      (fun _ => ⟨rfl, rfl, rfl, rfl, rfl⟩) ?_
    intro holdings hready
    dsimp only [Mirror.judged]
    split
    next hfull => exact move_overrun hrequest hpc hfull.1 hready
    · refine move_record hrequest ?_ hready ?_ hkey ?_
      · rfl
      · simp only [Request.task, Mirror.task, hpc]
        cases mirror.held with
        | true => exact Or.inl rfl
        | false => exact Or.inr rfl
      · rfl
  | overTakeBack hpc =>
    refine move_takeBack hrequest ?_ ?_ ?_
    · rfl
    · simp only [Request.task, Mirror.task, hpc]
    · rfl
  | overRemove hpc hcell =>
    rename_i hash holdings
    refine move_same hrequest rfl rfl rfl ?_ ?_ ?_
    · rw [hcell]
      ext other
      simp [Cell.known, and_comm]
    · rw [hcell]
      rfl
    · simp only [Request.task, Mirror.task, Mirror.goto, hpc]

/-! ## The steps of deletes -/

section

variable {found : Delete Key Hash} (hsound : Sound config state)
  (hdeletions : shared.deletions = Function.update state.shared.deletions key
    (Function.update (state.shared.deletions key) delete.hash
      (state.shared.deletions key delete.hash + 1)))
include hsound hdeletions

/-- The step that deletes a claim ends the standing of every upload's claim on
the blob by that key: none was made after it. -/
theorem State.standing_deleting (hrequest : state.requests id = some (.delete delete)) :
    (state.put id (shared, .delete found)).standing =
      state.standing \ {kept | kept.2 = (key, delete.hash)} := by
  ext ⟨other, owner, hash⟩
  simp only [State.standing, State.put, Set.mem_ofPred_eq, Set.mem_sdiff, hdeletions, Prod.mk.injEq]
  by_cases heq : other = id
  · simp [heq, hrequest, Request.kept]
  · rw [Function.update_of_ne heq]
    by_cases hclaim : owner = key ∧ hash = delete.hash
    · simp only [hclaim, and_self, not_true_eq_false, and_false, iff_false, Function.update_self]
      intro hkept
      obtain ⟨request, hother, hkept⟩ := Option.bind_eq_some_iff.mp hkept
      have hle := hsound.counted other request hother key delete.hash _ hkept
      omega
    · have hsame : Function.update state.shared.deletions key
          (Function.update (state.shared.deletions key) delete.hash
            (state.shared.deletions key delete.hash + 1)) owner hash =
          state.shared.deletions owner hash := by
        by_cases howner : owner = key
        · rw [howner, Function.update_self, Function.update_of_ne]
          exact fun hhash => hclaim ⟨howner, hhash⟩
        · rw [Function.update_of_ne howner]
      rw [hsame]
      exact (and_iff_left hclaim).symm

theorem move_delete {todo : List Key} {blobDeleted : Bool}
    (hrequest : state.requests id = some (.delete delete))
    (hpc : delete.pc = .deleting (key :: todo) blobDeleted)
    (hfound : found.task config = delete.task config)
    (hcell : shared.cell = state.shared.cell) (hstore : shared.store =
      (state.shared.store.deleteClaim key delete.hash).1) :
    Move config.deviceSet (state.view config) .quiet
      ((state.put id (shared, .delete found)).view config) := by
  have htask : (state.view config).tasks id = .removing delete.hash config.devices := by
    rw [State.tasks_of_request hrequest]
    simp only [Request.task, Delete.task, hpc]
  have hset : {claim | claim ∈ shared.store.claims} =
      {claim | claim ∈ state.shared.store.claims} \ {(key, delete.hash)} := by
    rw [hstore]
    ext claim
    exact state.shared.store.mem_deleteClaim key delete.hash claim
  have htasks : (state.put id (shared, .delete found)).tasks config = state.tasks config := by
    funext other
    by_cases heq : other = id
    · simp [State.tasks, State.put, heq, hrequest, Request.task, hfound]
    · simp [State.tasks, State.put, heq]
  have hview : (state.put id (shared, .delete found)).view config =
      ((state.view config).dropClaim key delete.hash).discount key
        delete.hash := by
    simp only [State.view, View.dropClaim, View.discount, htasks,
      State.standing_deleting hsound hdeletions hrequest]
    simp only [State.put, hset, hcell]
  rw [hview]
  exact Move.delete _ id key delete.hash config.devices htask

end

theorem Delete.Step.move {next : Shared Key Hash × Delete Key Hash} (hsound : Sound config state)
    (hrequest : state.requests id = some (.delete delete))
    (hstep : Delete.Step config state.shared id delete label next) :
    Move config.deviceSet (state.view config) label
      ((state.put id (next.1, .delete next.2)).view config) := by
  have htask : (state.view config).tasks id = delete.task config :=
    State.tasks_of_request hrequest
  cases hstep with
  | spend hpc hnext =>
    obtain ⟨todo, fresh, hnext⟩ := hnext
    refine move_rest hrequest rfl rfl rfl rfl ?_
    simp only [Request.task, Delete.task, Delete.goto, hpc, hnext]
  | find hpc hnext =>
    refine move_rest hrequest rfl rfl rfl rfl ?_
    rcases hnext with ⟨todo, holders, hnext⟩ | ⟨answer, hnext⟩ <;>
      simp only [Request.task, Delete.task, Delete.goto, hpc, hnext]
  | found hpc =>
    rw [State.view_put hrequest rfl rfl]
    refine Move.plan _ id delete.hash config.devices ?_ (fun _ hkey => hkey)
    rw [htask]
    simp only [Delete.task, hpc]
  | deleting hpc =>
    refine move_delete hsound ?_ hrequest hpc ?_ ?_ ?_
    · rfl
    · simp only [Delete.task, Delete.goto, hpc]
    · rfl
    · rfl
  | deleted hpc | unclaimed hpc =>
    refine move_rest hrequest rfl rfl rfl rfl ?_
    simp only [Request.task, Delete.task, Delete.goto, hpc]
  | look hpc =>
    rename_i key todo blobDeleted
    rw [State.view_put hrequest rfl rfl]
    have hbefore : (state.view config).tasks id = .removing delete.hash (key :: todo) := by
      rw [htask]
      simp only [Delete.task, hpc]
    cases hholds : state.shared.store.holdsClaim key delete.hash with
    | true =>
      have hclaim :=
        (state.shared.store.holdsClaim_iff key delete.hash).mp hholds
      have hkey : key ∈ config.devices := by
        have hdevice := hsound.device id _ hrequest
        simp only [Request.ByDevice, Delete.todo, hpc] at hdevice
        exact hdevice key List.mem_cons_self
      exact Move.lookPresent _ id key delete.hash todo hbefore hclaim hkey
    | false =>
      have hclaim : (key, delete.hash) ∉ state.shared.store.claims := by
        intro hclaim
        rw [(state.shared.store.holdsClaim_iff key delete.hash).mpr hclaim] at hholds
        cases hholds
      exact Move.lookAbsent _ id key delete.hash todo hbefore hclaim
  | still hpc hnext =>
    refine move_rest hrequest rfl rfl rfl rfl ?_
    rcases hnext with ⟨key, rest, _, hnext⟩ | hnext <;>
      simp only [Request.task, Delete.task, Delete.goto, hpc, hnext]
  | remove hpc haccess =>
    have hbefore : delete.task config = .removing delete.hash [] := by
      simp only [Delete.task, hpc]
    refine move_access .delete hsound hrequest haccess
      (fun _ => Or.inr ⟨_, hbefore⟩) (fun _ => ⟨rfl, rfl, rfl, rfl, rfl⟩) ?_
    intro holdings hready
    refine move_drop hrequest ?_ hready hbefore ?_
    · rfl
    · rfl

/-! ## Every step of the gate -/

theorem Sound.move {next : State Key Hash} {action : Action Key Hash} (hsound : Sound config state)
    (hstep : config.step state action = some next) :
    Move config.deviceSet (state.view config) (state.label config action) (next.view config) := by
  cases Config.step_cases hstep with
  | start hsigner =>
    rw [State.view_start (hsound.fresh _ (le_refl _))]
    exact Move.rest _
  | upload hrequest hwork | mirror hrequest hwork | delete hrequest hwork =>
    exact hwork.move hsound hrequest
  | uploadHangUp hrequest hwork => exact hwork.move hrequest
  | mirrorHangUp hrequest hpc => exact move_rest hrequest rfl rfl rfl rfl rfl
  | otherClaim hkey =>
    apply move_outside
    intro other hother claimed
    have hne := ne_of_mem_of_not_mem hother hkey
    simp [Store.mem_commit, hne]
  | otherDrop hkey =>
    apply move_outside
    intro other hother claimed
    have hne := ne_of_mem_of_not_mem hother hkey
    simp [Store.mem_deleteClaim, hne]

end GroupGate
end Wildbloom
