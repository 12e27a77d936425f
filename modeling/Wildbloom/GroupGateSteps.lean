import Wildbloom.GroupGateTasks

/-!
# What one step of a request can do

Each relation below lists the ways in which a step can go, with the label of
the step, what it requires and what it leaves.  Everything that is proved
about whole runs goes through these cases.
-/

namespace Wildbloom
namespace GroupGate

open ClaimCache

variable {Key Hash : Type} [DecidableEq Key] [DecidableEq Hash]
  {Result Request : Type} (config : Config Key Hash) (shared : Shared Key Hash) (id : ℕ)

/-! ## Accesses to the holdings -/

def Config.nextPage (device : Key) (rest : List Key) (found : Holdings Hash) (page : List Hash) :
    Cell Key Hash :=
  if page.length = pageSize then
    .rebuilding id (device :: rest) page.getLast? (config.insertPage found page)
  else .rebuilding id rest none (config.insertPage found page)

section

variable (f : Holdings Hash → Cell Key Hash × Result) (stay : Request)
  (refuse : Shared Key Hash → Shared Key Hash × Request)
  (proceed : Shared Key Hash → Result → Shared Key Hash × Request)

inductive AccessStep : Shared Key Hash × Request → Prop
  | build (hcell : shared.cell = .idle none) :
      AccessStep ({ shared with cell := .rebuilding id config.devices none .empty }, stay)
  | page {device rest cursor found page}
      (hcell : shared.cell = .rebuilding id (device :: rest) cursor found)
      (hpage : shared.store.listClaims device cursor pageSize = some page) :
      AccessStep ({ shared with cell := config.nextPage id device rest found page }, stay)
  | refuse {device rest cursor found}
      (hcell : shared.cell = .rebuilding id (device :: rest) cursor found)
      (hpage : shared.store.listClaims device cursor pageSize = none) :
      AccessStep (refuse { shared with cell := .idle none })
  | proceed {holdings} (hready : shared.cell.ready id = some holdings) :
      AccessStep (proceed { shared with cell := (f holdings).1 } (f holdings).2)

variable {config shared id f stay refuse proceed}

theorem accessStep_of_resume {next : Shared Key Hash × Request}
    (hstep : (withHoldings config shared id f).resume shared stay refuse proceed = some next) :
    AccessStep config shared id f stay refuse proceed next := by
  unfold withHoldings at hstep
  cases hcell : shared.cell with
  | idle holdings =>
    cases holdings with
    | none =>
      simp only [hcell, Access.resume] at hstep
      cases hstep
      exact .build hcell
    | some holdings =>
      simp only [hcell, Access.resume] at hstep
      cases hstep
      exact .proceed (by rw [hcell]; rfl)
  | judging owner hash holdings =>
    simp only [hcell, Access.resume] at hstep
    cases hstep
  | rebuilding owner todo cursor found =>
    by_cases howner : owner = id
    · subst howner
      cases todo with
      | nil =>
        simp only [hcell, if_true, Access.resume] at hstep
        cases hstep
        exact .proceed (by simp [hcell, Cell.ready])
      | cons device rest =>
        cases hpage : shared.store.listClaims device cursor pageSize with
        | none =>
          simp only [hcell, if_true, hpage, Access.resume] at hstep
          cases hstep
          exact .refuse hcell hpage
        | some page =>
          have hnext :
              next = ({ shared with cell := config.nextPage owner device rest found page },
                stay) := by
            unfold Config.nextPage
            by_cases hfull : page.length = pageSize
            · simp only [hcell, if_true, hpage, if_pos hfull,
                Access.resume, Option.some.injEq] at hstep ⊢
              exact hstep.symm
            · simp only [hcell, if_true, hpage, if_neg hfull,
                Access.resume, Option.some.injEq] at hstep ⊢
              exact hstep.symm
          rw [hnext]
          exact .page hcell hpage
    · simp only [hcell, if_neg howner, Access.resume] at hstep
      cases hstep

end

/-! ## Uploads -/

namespace Upload

variable (upload : Upload Key Hash)

inductive Step : Label Key Hash ℕ → Shared Key Hash × Upload Key Hash → Prop
  | busy (hpc : upload.pc = .acquire) : Step .quiet (shared, upload.goto (.answered .busy))
  | acquire (hpc : upload.pc = .acquire) :
      Step .quiet ({ shared with permits := shared.permits - 1 },
          { upload with permit := true, pc := .check })
  | check {next} (hpc : upload.pc = .check)
      (haccess : AccessStep config shared id
        (reading fun held => held.contains upload.hash) upload
        (fun shared => (shared, upload.finish .unavailable)) (fun shared held =>
          (shared, { upload with held := held, pc := .lockReserved })) next) :
      Step (accessLabel shared id fun _ => .check id upload.signer upload.hash true) next
  | lockReserved (hpc : upload.pc = .lockReserved)
      (hfree : shared.reservedBy = none) :
      Step .quiet ({ shared with reservedBy := some id }, upload.goto .readTotal)
  | readTotal {next} (hpc : upload.pc = .readTotal)
      (haccess : AccessStep config shared id
        (reading fun held => held.total) upload
        (fun shared =>
          ({ shared with reservedBy := none }, upload.finish .unavailable))
        (fun shared total => (shared, upload.goto (.admitting total)))
        next) : Step (accessLabel shared id fun _ => .quiet) next
  | full {total} (hpc : upload.pc = .admitting total) :
      Step .quiet ({ shared with reservedBy := none }, upload.finish .groupFull)
  | admitted {total} (hpc : upload.pc = .admitting total)
      (hfits : upload.need = 0 ∨ total + shared.reserved + upload.need ≤ config.ceiling) :
      Step .quiet
        ({ shared with reserved := shared.reserved + upload.need, reservedBy := none },
          { upload with bytes := upload.need }.resume (if upload.held then .lookup else .judge))
  | giveUp (answer : Answer)
      (hpc : upload.pc = .judge ∨ upload.pc = .prove ∨ upload.pc = .begin ∨
        upload.pc = .stream ∨ upload.pc = .commit)
      (hanswer : ∀ created, answer ≠ .stored created) : Step .quiet (shared, upload.finish answer)
  | judge (hpc : upload.pc = .judge) : Step .quiet (shared, upload.goto .lookup)
  | lookupStored (hpc : upload.pc = .lookup) (hheld : upload.held = false) :
      Step .quiet (shared, { upload with proven := true, pc := .prove })
  | lookupOther (hpc : upload.pc = .lookup) :
      Step .quiet (shared, { upload with proven := false, pc := .begin })
  | prove (hpc : upload.pc = .prove)
      (hlength : upload.length = config.size upload.hash) : Step .quiet (shared, upload.goto .begin)
  | claimOnTrial (hpc : upload.pc = .begin) (hheld : upload.held = false)
      (hproven : upload.proven = false) :
      Step (.claim id upload.signer upload.hash false false)
        ({ shared with store := shared.store.addClaim upload.signer upload.hash },
          upload.goto .takeBack)
  | claim (hpc : upload.pc = .begin)
      (hkept : (upload.held || upload.proven) = true) :
      Step (.claim id upload.signer upload.hash true true)
        ({ shared with store := shared.store.addClaim upload.signer upload.hash },
          upload.claimed shared false)
  | reserve (hpc : upload.pc = .begin) (hproven : upload.proven = false) :
      Step .quiet (shared, upload.resume .stream)
  | takeBack (hpc : upload.pc = .takeBack) :
      Step .quiet
        ({ shared with store := (shared.store.deleteClaim upload.signer upload.hash).1 },
          upload.finish .unavailable)
  | stream (hpc : upload.pc = .stream) : Step .quiet (shared, upload.goto .commit)
  | commit (hpc : upload.pc = .commit)
      (hlength : upload.length = config.size upload.hash) :
      Step (.claim id upload.signer upload.hash true true)
        ({ shared with store := shared.store.commit upload.signer upload.hash },
          upload.claimed shared true)
  | record {created next} (hpc : upload.pc = .record created)
      (haccess : AccessStep config shared id
        (writing fun held =>
          held.insert upload.hash (config.size upload.hash)) upload
        (fun shared => (shared, upload.finish .unavailable)) (fun shared _ =>
          (shared, upload.finish (.stored (!upload.held || created))))
        next) : Step (accessLabel shared id fun _ => .record id upload.signer upload.hash) next
  | release {answer} (hpc : upload.pc = .release answer)
      (hfree : shared.reservedBy = none) :
      Step .quiet ((upload.drop shared).1, (upload.drop shared).2.goto (.answered answer))

variable {config shared id upload}

theorem step_cases {ok : Bool} {next : Shared Key Hash × Upload Key Hash}
    (hstep : upload.step config shared id ok = some next) :
    Step config shared id upload (upload.label config shared id ok) next := by
  unfold step at hstep
  cases hpc : upload.pc with simp only [label, hpc] at hstep ⊢
  | acquire =>
    split at hstep
    · cases hstep
      exact .busy hpc
    · cases hstep
      exact .acquire hpc
  | check =>
    exact .check hpc (accessStep_of_resume hstep)
  | lockReserved =>
    split at hstep
    next hfree =>
      cases hstep
      exact .lockReserved hpc hfree
    · cases hstep
  | readTotal =>
    exact .readTotal hpc (accessStep_of_resume hstep)
  | admitting total =>
    split at hstep
    · cases hstep
      exact .full hpc
    next hfits =>
      cases hstep
      exact .admitted hpc (by omega)
  | judge =>
    cases ok with
    | true =>
      cases hstep
      exact .judge hpc
    | false =>
      cases hstep
      exact .giveUp _ (by simp [hpc]) (by simp)
  | lookup =>
    cases hproven : (!upload.held && shared.store.get upload.hash) with
    | true =>
      simp only [hproven] at hstep
      cases hstep
      exact .lookupStored hpc (by simp_all)
    | false =>
      simp only [hproven] at hstep
      cases hstep
      exact .lookupOther hpc
  | prove =>
    split at hstep
    next hgood =>
      cases hstep
      exact .prove hpc hgood.2
    · cases hstep
      exact .giveUp _ (by simp [hpc]) (by simp)
  | begin =>
    cases ok with
    | false =>
      cases hstep
      exact .giveUp _ (by simp [hpc]) (by simp)
    | true =>
      unfold Store.beginClaimedUpload at hstep
      by_cases hexists : shared.store.get upload.hash = true
      · simp only [hexists, if_true] at hstep
        split at hstep
        next hunproven =>
          cases hstep
          simp only [Bool.and_eq_true, Bool.not_eq_true'] at hunproven
          simp only [hexists, hunproven.1, hunproven.2]
          exact .claimOnTrial hpc hunproven.1 hunproven.2
        next hkept =>
          cases hstep
          have hkept : (upload.held || upload.proven) = true := by
            cases hheld : upload.held <;> cases hproven : upload.proven <;>
              simp_all
          simp only [hexists, hkept]
          exact .claim hpc hkept
      · simp only [if_neg hexists, if_true] at hstep
        simp only [hexists]
        cases hproven : upload.proven with
        | true =>
          simp only [hproven, if_true] at hstep
          cases hstep
          exact .giveUp _ (by simp [hpc]) (by simp)
        | false =>
          simp only [hproven] at hstep
          cases hstep
          exact .reserve hpc hproven
  | takeBack =>
    cases hstep
    exact .takeBack hpc
  | stream =>
    cases ok with
    | true =>
      cases hstep
      exact .stream hpc
    | false =>
      cases hstep
      exact .giveUp _ (by simp [hpc]) (by simp)
  | commit =>
    split at hstep
    next hgood =>
      cases hstep
      rw [if_pos hgood]
      exact .commit hpc hgood.2
    next hbad =>
      cases hstep
      rw [if_neg hbad]
      exact .giveUp _ (by simp [hpc]) (by simp)
  | record created =>
    exact .record hpc (accessStep_of_resume hstep)
  | release answer =>
    split at hstep
    next hfree =>
      cases hstep
      exact .release hpc hfree
    · cases hstep
  | answered answer =>
    cases hstep

variable (shared upload)

inductive HangUp : Shared Key Hash × Upload Key Hash → Prop
  | wait
      (hpc : upload.pc = .acquire ∨ upload.pc = .check ∨
        upload.pc = .lockReserved ∨ upload.pc = .readTotal ∨
        ∃ total, upload.pc = .admitting total) : HangUp (shared, upload.withoutClient)
  | leave
      (hpc : upload.pc = .judge ∨ upload.pc = .lookup ∨ upload.pc = .prove ∨ upload.pc = .stream) :
      HangUp (shared, upload.withoutClient.finish .hungUp)
  | drop
      (hpc : upload.pc = .begin ∨ upload.pc = .takeBack ∨
        upload.pc = .commit ∨ ∃ created, upload.pc = .record created)
      (hfree : shared.reservedBy = none) : HangUp (upload.withoutClient.drop shared)

variable {shared upload}

omit [DecidableEq Key] [DecidableEq Hash] in
theorem hangUp_cases {next : Shared Key Hash × Upload Key Hash}
    (hstep : upload.hangUp shared = some next) : HangUp shared upload next := by
  unfold hangUp at hstep
  cases hpc : upload.pc with simp only [hpc] at hstep
  | acquire | check | lockReserved | readTotal | admitting =>
    cases hstep
    apply HangUp.wait
    simp [hpc]
  | judge | lookup | prove | stream =>
    cases hstep
    apply HangUp.leave
    simp [hpc]
  | release | answered =>
    cases hstep
  | _ =>
    split at hstep
    next hfree =>
      cases hstep
      apply HangUp.drop _ hfree
      simp [hpc]
    · cases hstep

end Upload

/-! ## Mirrors -/

namespace Mirror

variable (mirror : Mirror Key Hash)

inductive Step : Label Key Hash ℕ → Shared Key Hash × Mirror Key Hash → Prop
  | readReserved (hpc : mirror.pc = .readReserved)
      (hfree : shared.reservedBy = none) :
      Step .quiet (shared, { mirror with reserved := shared.reserved, pc := .check })
  | check {next} (hpc : mirror.pc = .check)
      (haccess : AccessStep config shared id
        (reading fun held =>
          (mirror.named && held.contains mirror.hash, held.total)) mirror
        (fun shared => (shared, mirror.goto (.answered .unavailable))) (fun shared result =>
          if mirror.gone then (shared, mirror.goto (.answered .hungUp))
          else if result.1 = false ∧ config.ceiling ≤ result.2 + mirror.reserved then
            (shared, mirror.goto (.answered .groupFull))
          else (shared, { mirror with held := result.1, pc := .forward }))
        next) :
      Step (accessLabel shared id fun _ => .check id mirror.signer mirror.hash mirror.named) next
  | forward (hpc : mirror.pc = .forward) :
      Step (.claim id mirror.signer mirror.hash mirror.held false)
        ({ shared with store := shared.store.commit mirror.signer mirror.hash },
          mirror.goto (.verdict (!shared.store.get mirror.hash)))
  | giveUp (hpc : mirror.pc = .forward) :
      Step .quiet (shared, mirror.goto (.answered .refusedByCore))
  | takeBack {created} (hpc : mirror.pc = .verdict created)
      (hheld : mirror.held = false) :
      Step .quiet
        ({ shared with store := (shared.store.deleteClaim mirror.signer mirror.hash).1 },
          mirror.goto (.answered .wrongBlob))
  | verdict {created next} (hpc : mirror.pc = .verdict created)
      (haccess : AccessStep config shared id (mirror.judged config id) mirror
        (fun shared => (shared, mirror.goto (.answered .unavailable))) (fun shared full =>
          (shared, mirror.goto (if full then .overTakeBack else .answered (.mirrored created))))
        next) :
      Step
        (accessLabel shared id fun holdings =>
          if (mirror.judged config id holdings).2 then .overrun mirror.hash
          else .record id mirror.signer mirror.hash) next
  | overTakeBack (hpc : mirror.pc = .overTakeBack) :
      Step .quiet
        ({ shared with store := (shared.store.deleteClaim mirror.signer mirror.hash).1 },
          mirror.goto .overRemove)
  | overRemove {hash holdings} (hpc : mirror.pc = .overRemove)
      (hcell : shared.cell = .judging id hash holdings) :
      Step .quiet
        ({ shared with cell := .idle (some (holdings.remove hash)) },
          mirror.goto (.answered .groupFull))

variable {config shared id mirror}

theorem step_cases {ok : Bool} {next : Shared Key Hash × Mirror Key Hash}
    (hstep : mirror.step config shared id ok = some next) :
    Step config shared id mirror (mirror.label config shared id ok) next := by
  unfold step at hstep
  cases hpc : mirror.pc with simp only [label, hpc] at hstep ⊢
  | readReserved =>
    split at hstep
    next hfree =>
      cases hstep
      exact .readReserved hpc hfree
    · cases hstep
  | check =>
    exact .check hpc (accessStep_of_resume hstep)
  | forward =>
    cases ok with
    | true =>
      cases hstep
      exact .forward hpc
    | false =>
      cases hstep
      exact .giveUp hpc
  | verdict created =>
    split at hstep
    next hunproven =>
      cases hstep
      rw [if_pos hunproven]
      exact .takeBack hpc hunproven.2
    next hproven =>
      rw [if_neg hproven]
      exact .verdict hpc (accessStep_of_resume hstep)
  | overTakeBack =>
    cases hstep
    exact .overTakeBack hpc
  | overRemove =>
    cases hcell : shared.cell with
    | judging owner hash holdings =>
      simp only [hcell] at hstep
      split at hstep
      next howner =>
        cases hstep
        subst howner
        exact .overRemove hpc hcell
      · cases hstep
    | idle | rebuilding =>
      simp only [hcell] at hstep
      cases hstep
  | answered answer =>
    cases hstep

omit [DecidableEq Key] [DecidableEq Hash] in
theorem hangUp_cases {mirror next : Mirror Key Hash} (hstep : mirror.hangUp = some next) :
    (mirror.pc = .readReserved ∨ mirror.pc = .check) ∧ next = { mirror with gone := true } := by
  unfold hangUp at hstep
  cases hpc : mirror.pc with simp only [hpc] at hstep
  | readReserved | check =>
    cases hstep
    simp
  | _ =>
    cases hstep

end Mirror

/-! ## Deletes -/

namespace Delete

variable (delete : Delete Key Hash)

inductive Step : Label Key Hash ℕ → Shared Key Hash × Delete Key Hash → Prop
  | spend (hpc : delete.pc = .spend) {pc}
      (hnext : ∃ todo fresh, pc = .find todo [] fresh) :
      Step .quiet ({ shared with spent := delete.token :: shared.spent }, delete.goto pc)
  | find {todo holders fresh pc} (hpc : delete.pc = .find todo holders fresh)
      (hnext : (∃ todo holders, pc = .find todo holders fresh) ∨ ∃ answer, pc = .answered answer) :
      Step .quiet (shared, delete.goto pc)
  | found {holders fresh} (hpc : delete.pc = .find [] holders fresh) :
      Step .quiet (shared, delete.goto (.deleting holders false))
  | deleting {key todo blobDeleted}
      (hpc : delete.pc = .deleting (key :: todo) blobDeleted) :
      Step .quiet
        ({ shared with
            store := (shared.store.deleteClaim key delete.hash).1
            deletions := Function.update shared.deletions key
              (Function.update (shared.deletions key) delete.hash
                (shared.deletions key delete.hash + 1)) },
          delete.goto (.deleting todo (blobDeleted ||
            decide ((shared.store.deleteClaim key delete.hash).2 = .blobDeleted))))
  | deleted {blobDeleted} (hpc : delete.pc = .deleting [] blobDeleted) :
      Step .quiet (shared, delete.goto (.recheck config.devices false blobDeleted))
  | look {key todo blobDeleted}
      (hpc : delete.pc = .recheck (key :: todo) false blobDeleted) :
      Step (.look key delete.hash) (shared, delete.goto (.recheck todo
          (shared.store.holdsClaim key delete.hash) blobDeleted))
  | still {todo blobDeleted pc}
      (hpc : delete.pc = .recheck todo true blobDeleted)
      (hnext : (∃ key rest, todo = key :: rest ∧ pc = .recheck rest true blobDeleted) ∨
        pc = .answered (.deleted blobDeleted)) : Step .quiet (shared, delete.goto pc)
  | unclaimed {blobDeleted}
      (hpc : delete.pc = .recheck [] false blobDeleted) :
      Step .quiet (shared, delete.goto (.remove blobDeleted))
  | remove {blobDeleted next} (hpc : delete.pc = .remove blobDeleted)
      (haccess : AccessStep config shared id
        (writing fun held => held.remove delete.hash) delete
        (fun shared => (shared, delete.goto (.answered .unavailable))) (fun shared _ =>
          (shared, delete.goto (.answered (.deleted blobDeleted)))) next) :
      Step (accessLabel shared id fun _ => .quiet) next

variable {config shared id delete}

theorem step_cases {next : Shared Key Hash × Delete Key Hash}
    (hstep : delete.step config shared id = some next) :
    Step config shared id delete (delete.label shared id) next := by
  unfold step at hstep
  cases hpc : delete.pc with simp only [label, hpc] at hstep ⊢
  | spend =>
    cases hstep
    exact .spend hpc ⟨_, _, rfl⟩
  | find todo holders fresh =>
    cases todo with
    | cons key todo =>
      cases hstep
      exact .find hpc (Or.inl ⟨_, _, rfl⟩)
    | nil =>
      dsimp only at hstep
      split at hstep
      · cases hstep
        exact .find hpc (Or.inr ⟨_, rfl⟩)
      · split at hstep
        · cases hstep
          exact .found hpc
        · cases hstep
          exact .find hpc (Or.inr ⟨_, rfl⟩)
  | deleting todo blobDeleted =>
    cases todo with
    | cons key todo =>
      cases hstep
      exact .deleting hpc
    | nil =>
      cases hstep
      exact .deleted hpc
  | recheck todo still blobDeleted =>
    cases still with
    | true =>
      cases todo with
      | cons key todo =>
        simp only [Bool.true_or] at hstep
        cases hstep
        exact .still hpc (Or.inl ⟨_, _, rfl, rfl⟩)
      | nil =>
        cases hstep
        exact .still hpc (Or.inr rfl)
    | false =>
      cases todo with
      | cons key todo =>
        simp only [Bool.false_or] at hstep
        cases hstep
        exact .look hpc
      | nil =>
        cases hstep
        exact .unclaimed hpc
  | remove blobDeleted =>
    exact .remove hpc (accessStep_of_resume hstep)
  | answered answer =>
    cases hstep

end Delete

/-! ## The gate -/

namespace Config

variable (state : State Key Hash)

inductive Step : Action Key Hash → State Key Hash → Prop
  | start {order} (hsigner : order.signer ∈ config.devices) :
      Step (.start order)
        { state with
          requests :=
            Function.update state.requests state.started (some order.request)
          started := state.started + 1 }
  | upload {id ok work next}
      (hrequest : state.requests id = some (.upload work))
      (hstep : Upload.Step config state.shared id work (state.label config (.advance id ok)) next) :
      Step (.advance id ok) (state.put id (next.1, .upload next.2))
  | mirror {id ok work next}
      (hrequest : state.requests id = some (.mirror work))
      (hstep : Mirror.Step config state.shared id work (state.label config (.advance id ok)) next) :
      Step (.advance id ok) (state.put id (next.1, .mirror next.2))
  | delete {id ok work next}
      (hrequest : state.requests id = some (.delete work))
      (hstep : Delete.Step config state.shared id work (state.label config (.advance id ok)) next) :
      Step (.advance id ok) (state.put id (next.1, .delete next.2))
  | uploadHangUp {id work next}
      (hrequest : state.requests id = some (.upload work))
      (hstep : Upload.HangUp state.shared work next) :
      Step (.hangUp id) (state.put id (next.1, .upload next.2))
  | mirrorHangUp {id work}
      (hrequest : state.requests id = some (.mirror work))
      (hpc : work.pc = .readReserved ∨ work.pc = .check) :
      Step (.hangUp id) (state.put id (state.shared, .mirror { work with gone := true }))
  | otherClaim {key hash} (hkey : key ∉ config.devices) :
      Step (.otherClaim key hash)
        { state with shared := { state.shared with store := state.shared.store.commit key hash } }
  | otherDrop {key hash} (hkey : key ∉ config.devices) :
      Step (.otherDrop key hash)
        { state with
          shared :=
            { state.shared with store := (state.shared.store.deleteClaim key hash).1 } }

variable {config state}

theorem step_cases {next : State Key Hash} {action : Action Key Hash}
    (hstep : config.step state action = some next) : Step config state action next := by
  cases action with
  | start order =>
    simp only [step, Option.ite_none_right_eq_some, Option.some.injEq] at hstep
    rw [← hstep.2]
    exact .start hstep.1
  | advance id ok =>
    simp only [step, Option.bind_eq_some_iff, Option.map_eq_some_iff] at hstep
    obtain ⟨request, hrequest, result, hresult, hnext⟩ := hstep
    have hlabel : state.label config (.advance id ok) =
        request.label config state.shared id ok := by
      simp only [State.label, hrequest]
    rw [← hnext]
    cases request with obtain ⟨after, hafter, hresult⟩ := Option.map_eq_some_iff.mp hresult
    | upload work =>
      rw [← hresult]
      exact .upload hrequest (hlabel ▸ Upload.step_cases hafter)
    | mirror work =>
      rw [← hresult]
      exact .mirror hrequest (hlabel ▸ Mirror.step_cases hafter)
    | delete work =>
      rw [← hresult]
      exact .delete hrequest (hlabel ▸ Delete.step_cases hafter)
  | hangUp id =>
    simp only [step, Option.bind_eq_some_iff, Option.map_eq_some_iff] at hstep
    obtain ⟨request, hrequest, result, hresult, hnext⟩ := hstep
    rw [← hnext]
    cases request with
    | upload work =>
      obtain ⟨after, hafter, hresult⟩ := Option.map_eq_some_iff.mp hresult
      rw [← hresult]
      exact .uploadHangUp hrequest (Upload.hangUp_cases hafter)
    | mirror work =>
      obtain ⟨after, hafter, hresult⟩ := Option.map_eq_some_iff.mp hresult
      obtain ⟨hpc, hwork⟩ := Mirror.hangUp_cases hafter
      rw [← hresult, hwork]
      exact .mirrorHangUp hrequest hpc
    | delete work => cases hresult
  | otherClaim key hash =>
    simp only [step, Option.ite_none_left_eq_some, Option.some.injEq] at hstep
    rw [← hstep.2]
    exact .otherClaim hstep.1
  | otherDrop key hash =>
    simp only [step, Option.ite_none_left_eq_some, Option.some.injEq] at hstep
    rw [← hstep.2]
    exact .otherDrop hstep.1

end Config

end GroupGate
end Wildbloom
