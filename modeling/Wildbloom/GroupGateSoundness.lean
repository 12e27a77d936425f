import Wildbloom.GroupGateSteps

/-!
# What every state of the gate satisfies

While the holdings of the group are not built, no request has come past its
first look at them, so no device makes a claim and a listing of claims that is
under way stays good.  The holdings always list a finite set of blobs with
their sizes.
-/

namespace Wildbloom
namespace GroupGate

open Runs

variable {Key Hash : Type} [DecidableEq Key] [DecidableEq Hash]

/-- The request has not come past its first look at the holdings, or is done.
A DELETE makes no claim and is always early. -/
def Request.Early : Request Key Hash → Prop
  | .upload work =>
    match work.pc with
    | .acquire | .check | .release _ | .answered _ => True
    | _ => False
  | .mirror work =>
    match work.pc with
    | .readReserved | .check | .answered _ => True
    | _ => False
  | .delete _ => True

def Cell.Lists (size : Hash → ℕ) : Cell Key Hash → Prop
  | .idle none => True
  | .idle (some holdings) => ∃ hashes, holdings.Lists size hashes
  | .rebuilding _ _ _ found => ∃ hashes, found.Lists size hashes
  | .judging _ _ holdings => ∃ hashes, holdings.Lists size hashes

def Cell.Listing (config : Config Key Hash) (store : Store Key Hash) : Cell Key Hash → Prop
  | .rebuilding _ todo cursor found =>
    (∀ key ∈ todo, key ∈ config.devices) ∧ ∀ device rest, todo = device :: rest →
        store.ListedUpTo device cursor (fun hash =>
          found.contains hash = true)
  | .idle _ | .judging _ _ _ => True

structure SharedSound (config : Config Key Hash) (shared : Shared Key Hash) : Prop where
  lists : shared.cell.Lists config.size
  listing : shared.cell.Listing config shared.store

def Delete.todo (delete : Delete Key Hash) : List Key :=
  match delete.pc with
  | .recheck todo _ _ => todo
  | _ => []

def Request.ByDevice (config : Config Key Hash) : Request Key Hash → Prop
  | .upload work => work.signer ∈ config.devices
  | .mirror work => work.signer ∈ config.devices
  | .delete work => ∀ key ∈ work.todo, key ∈ config.devices

/-- The deletions a request counted when it made its claim are no more than
those counted now. -/
def Request.Counted (deletions : Key → Hash → ℕ) (request : Request Key Hash) : Prop :=
  ∀ key hash count, request.kept = some (key, hash, count) → count ≤ deletions key hash

structure Sound (config : Config Key Hash) (state : State Key Hash) : Prop where
  shared : SharedSound config state.shared
  fresh : ∀ id, state.started ≤ id → state.requests id = none
  device : ∀ id request, state.requests id = some request → request.ByDevice config
  counted : ∀ id request, state.requests id = some request → request.Counted state.shared.deletions
  early : state.shared.cell.Unbuilt → ∀ id request, state.requests id = some request → request.Early

variable {config : Config Key Hash} {shared : Shared Key Hash} {id : ℕ}
variable {cell : Cell Key Hash} {next : Shared Key Hash × Upload Key Hash}
  {upload : Upload Key Hash} {label : ClaimCache.Label Key Hash ℕ} {mirror : Mirror Key Hash}
  {delete : Delete Key Hash} {state : State Key Hash} {store : Store Key Hash}

/-! ## The shared state -/

omit [DecidableEq Key] [DecidableEq Hash] in
theorem Cell.listing_of_built [DecidableEq Key] (store : Store Key Hash)
    (hbuilt : ¬ cell.Unbuilt) : cell.Listing config store := by
  cases cell with
  | idle | judging => trivial
  | rebuilding owner todo cursor found => exact absurd trivial hbuilt

theorem Cell.Listing.deleteClaim (hlisting : cell.Listing config store) (key : Key) (hash : Hash) :
    cell.Listing config (store.deleteClaim key hash).1 := by
  cases cell with
  | idle | judging => trivial
  | rebuilding owner todo cursor found =>
    refine ⟨hlisting.1, ?_⟩
    intro device rest htodo
    exact (hlisting.2 device rest htodo).deleteClaim key hash

theorem Cell.Listing.commit (hlisting : cell.Listing config store) {key : Key} (hash : Hash)
    (hkey : key ∉ config.devices) : cell.Listing config (store.commit key hash) := by
  cases cell with
  | idle | judging => trivial
  | rebuilding owner todo cursor found =>
    refine ⟨hlisting.1, ?_⟩
    intro device rest htodo
    have hne : key ≠ device := by
      intro heq
      apply hkey
      rw [heq]
      apply hlisting.1
      rw [htodo]
      exact List.mem_cons_self
    exact (hlisting.2 device rest htodo).commit hash hne

omit [DecidableEq Key] [DecidableEq Hash] in
theorem Cell.ready_cases {holdings : Holdings Hash} (hready : cell.ready id = some holdings) :
    cell = .idle (some holdings) ∨ ∃ cursor, cell = .rebuilding id [] cursor holdings := by
  cases cell with
  | idle held =>
    simp only [Cell.ready] at hready
    exact Or.inl (by rw [hready])
  | judging owner hash held => simp [Cell.ready] at hready
  | rebuilding owner todo cursor found =>
    cases todo with
    | cons device rest => simp [Cell.ready] at hready
    | nil =>
      simp only [Cell.ready, Option.ite_none_right_eq_some, Option.some.injEq] at hready
      exact Or.inr ⟨cursor, by rw [hready.1, hready.2]⟩

omit [DecidableEq Key] in
theorem Cell.Lists.of_ready (hlists : cell.Lists config.size)
    {holdings : Holdings Hash} (hready : cell.ready id = some holdings) :
    ∃ hashes, holdings.Lists config.size hashes := by
  obtain rfl | ⟨cursor, rfl⟩ := Cell.ready_cases hready <;> exact hlists

/-- Reading a page keeps the listing good: a full page moves the cursor, and
after the last page the next device is listed from its start. -/
theorem SharedSound.page {device : Key} {rest : List Key}
    {cursor : Option Hash} {found : Holdings Hash} {page : List Hash}
    (hsound : SharedSound config shared)
    (hcell : shared.cell = .rebuilding id (device :: rest) cursor found)
    (hpage : shared.store.listClaims device cursor pageSize = some page) :
    SharedSound config { shared with cell := config.nextPage id device rest found page } := by
  obtain ⟨hlists, hlisting⟩ := hsound
  rw [hcell] at hlists hlisting
  obtain ⟨hashes, hfound⟩ := hlists
  obtain ⟨hdevices, hlisted⟩ := hlisting
  have hseen := (hlisted device rest rfl).next hpage
  constructor
  · unfold Config.nextPage
    split <;> exact ⟨_, hfound.insertPage page⟩
  · unfold Config.nextPage
    split
    · refine ⟨hdevices, ?_⟩
      intro other others htodo
      rw [List.cons.injEq] at htodo
      rw [← htodo.1]
      convert hseen using 2 with hash
      simp [or_comm]
    · refine ⟨fun key hkey => hdevices key (List.mem_cons_of_mem _ hkey), ?_⟩
      intro other others htodo
      trivial

section Access

variable {Result Request : Type} {f : Holdings Hash → Cell Key Hash × Result} {stay : Request}
  {refuse : Shared Key Hash → Shared Key Hash × Request}
  {proceed : Shared Key Hash → Result → Shared Key Hash × Request}
  {next : Shared Key Hash × Request}
  (hstep : AccessStep config shared id f stay refuse proceed next)
include hstep

/-- An access keeps the shared state sound when the function run on the
holdings does. -/
theorem SharedSound.access (hsound : SharedSound config shared)
    (hrefuse : ∀ shared, (refuse shared).1.cell = shared.cell)
    (hproceed : ∀ shared result, (proceed shared result).1.cell = shared.cell)
    (hf : ∀ holdings hashes, holdings.Lists config.size hashes →
      ¬ (f holdings).1.Unbuilt ∧ (f holdings).1.Lists config.size) : SharedSound config next.1 := by
  cases hstep with
  | build hcell =>
    refine ⟨⟨∅, Holdings.lists_empty⟩, fun key hkey => hkey, ?_⟩
    intro device rest htodo
    trivial
  | page hcell hpage => exact hsound.page hcell hpage
  | refuse hcell hpage =>
    constructor <;>
    · rw [hrefuse]
      trivial
  | proceed hready =>
    obtain ⟨hashes, hlists⟩ := hsound.lists.of_ready hready
    obtain ⟨hbuilt, hnext⟩ := hf _ hashes hlists
    constructor
    · rw [hproceed]
      exact hnext
    · rw [hproceed]
      exact Cell.listing_of_built _ hbuilt

/-- An access leaves the cell unbuilt only where it does not go on. -/
theorem AccessStep.unbuilt
    (hproceed : ∀ shared result, (proceed shared result).1.cell = shared.cell)
    (hf : ∀ holdings, ¬ (f holdings).1.Unbuilt) (hunbuilt : next.1.cell.Unbuilt) :
    shared.cell.Unbuilt ∧ (next.2 = stay ∨ ∃ shared, next.2 = (refuse shared).2) := by
  cases hstep with
  | build hcell | page hcell hpage =>
    rw [hcell]
    exact ⟨trivial, Or.inl rfl⟩
  | refuse hcell hpage =>
    rw [hcell]
    exact ⟨trivial, Or.inr ⟨_, rfl⟩⟩
  | proceed hready =>
    rw [hproceed] at hunbuilt
    exact absurd hunbuilt (hf _)

/-- What holds of every way in which an access can go on holds of it. -/
theorem AccessStep.rule {P : Shared Key Hash × Request → Prop}
    (hstay : ∀ cell, P ({ shared with cell := cell }, stay))
    (hrefuse : ∀ cell, P (refuse { shared with cell := cell }))
    (hproceed : ∀ cell result, P (proceed { shared with cell := cell } result)) : P next := by
  cases hstep with
  | build | page => exact hstay _
  | refuse => exact hrefuse _
  | proceed => exact hproceed _ _

theorem AccessStep.of_built (hbuilt : ¬ shared.cell.Unbuilt) :
    ∃ holdings, shared.cell.ready id = some holdings ∧
      next = proceed { shared with cell := (f holdings).1 } (f holdings).2 := by
  cases hstep with
  | build hcell | page hcell | refuse hcell =>
    rw [hcell] at hbuilt
    exact absurd trivial hbuilt
  | proceed hready => exact ⟨_, hready, rfl⟩

end Access

/-! ## One step of a request -/

theorem Upload.Step.sharedSound (hsound : SharedSound config shared)
    (hearly : shared.cell.Unbuilt → (Request.upload upload).Early)
    (hstep : Upload.Step config shared id upload label next) : SharedSound config next.1 := by
  have hbuilt : upload.pc = .begin ∨ upload.pc = .commit → ¬ shared.cell.Unbuilt := by
    intro hpc hunbuilt
    have hcase := hearly hunbuilt
    rcases hpc with hpc | hpc <;> simp [Request.Early, hpc] at hcase
  cases hstep with
  | check hpc haccess | readTotal hpc haccess =>
    exact hsound.access haccess (fun _ => rfl) (fun _ _ => rfl)
      (fun _ _ hlists => ⟨not_false, _, hlists⟩)
  | record hpc haccess =>
    exact hsound.access haccess (fun _ => rfl) (fun _ _ => rfl)
      (fun _ _ hlists => ⟨not_false, _, hlists.insert _⟩)
  | claimOnTrial hpc hheld hproven | claim hpc hkept =>
    exact ⟨hsound.lists, Cell.listing_of_built _ (hbuilt (Or.inl hpc))⟩
  | commit hpc hlength =>
    exact ⟨hsound.lists, Cell.listing_of_built _ (hbuilt (Or.inr hpc))⟩
  | takeBack hpc =>
    exact ⟨hsound.lists, hsound.listing.deleteClaim _ _⟩
  | _ =>
    exact ⟨hsound.lists, hsound.listing⟩

theorem Upload.Step.early (hearly : shared.cell.Unbuilt → (Request.upload upload).Early)
    (hstep : Upload.Step config shared id upload label next) (hunbuilt : next.1.cell.Unbuilt) :
    shared.cell.Unbuilt ∧ (Request.upload next.2).Early := by
  cases hstep with
  | check hpc haccess =>
    obtain ⟨hbefore, hstay | ⟨other, hrefused⟩⟩ :=
      haccess.unbuilt (fun _ _ => rfl) (fun _ => not_false) hunbuilt
    · rw [hstay]
      exact ⟨hbefore, hearly hbefore⟩
    · rw [hrefused]
      exact ⟨hbefore, trivial⟩
  | readTotal hpc haccess | record hpc haccess =>
    obtain ⟨hbefore, _⟩ :=
      haccess.unbuilt (fun _ _ => rfl) (fun _ => not_false) hunbuilt
    have hcase := hearly hbefore
    simp [Request.Early, hpc] at hcase
  | busy | acquire | release | giveUp => exact ⟨hunbuilt, trivial⟩
  | lockReserved hpc | full hpc | admitted hpc | judge hpc
  | lookupStored hpc | lookupOther hpc | prove hpc | claimOnTrial hpc
  | claim hpc | reserve hpc | takeBack hpc | stream hpc | commit hpc =>
    have hcase := hearly hunbuilt
    simp [Request.Early, hpc] at hcase

theorem Mirror.Step.sharedSound {next : Shared Key Hash × Mirror Key Hash}
    (hsound : SharedSound config shared)
    (hearly : shared.cell.Unbuilt → (Request.mirror mirror).Early)
    (hstep : Mirror.Step config shared id mirror label next) : SharedSound config next.1 := by
  cases hstep with
  | readReserved | giveUp => exact hsound
  | check hpc haccess =>
    refine hsound.access haccess (fun _ => rfl) ?_ (fun _ _ hlists => ⟨not_false, _, hlists⟩)
    intro other result
    split
    · rfl
    · split <;> rfl
  | forward hpc =>
    have hbuilt : ¬ shared.cell.Unbuilt := by
      intro hunbuilt
      have hcase := hearly hunbuilt
      simp [Request.Early, hpc] at hcase
    exact ⟨hsound.lists, Cell.listing_of_built _ hbuilt⟩
  | takeBack | overTakeBack => exact ⟨hsound.lists, hsound.listing.deleteClaim _ _⟩
  | verdict hpc haccess =>
    refine hsound.access haccess (fun _ => rfl) (fun _ _ => rfl) ?_
    intro holdings hashes hlists
    unfold Mirror.judged
    dsimp only
    split <;> exact ⟨not_false, _, hlists.insert _⟩
  | overRemove hpc hcell =>
    have hlists := hsound.lists
    rw [hcell] at hlists
    obtain ⟨hashes, hlists⟩ := hlists
    exact ⟨⟨_, hlists.remove _⟩, trivial⟩

theorem Mirror.Step.early {next : Shared Key Hash × Mirror Key Hash}
    (hearly : shared.cell.Unbuilt → (Request.mirror mirror).Early)
    (hstep : Mirror.Step config shared id mirror label next) (hunbuilt : next.1.cell.Unbuilt) :
    shared.cell.Unbuilt ∧ (Request.mirror next.2).Early := by
  cases hstep with
  | check hpc haccess =>
    have hcell : ∀ (other : Shared Key Hash) (result : Bool × ℕ),
        (if mirror.gone then (other, mirror.goto (.answered .hungUp))
        else if result.1 = false ∧ config.ceiling ≤ result.2 + mirror.reserved then
          (other, mirror.goto (.answered .groupFull))
        else (other, { mirror with held := result.1, pc := .forward })
        ).1.cell = other.cell := by
      intro other result
      split
      · rfl
      · split <;> rfl
    obtain ⟨hbefore, hstay | ⟨other, hrefused⟩⟩ :=
      haccess.unbuilt hcell (fun _ => not_false) hunbuilt
    · rw [hstay]
      exact ⟨hbefore, hearly hbefore⟩
    · rw [hrefused]
      exact ⟨hbefore, trivial⟩
  | forward hpc | overTakeBack hpc =>
    have hcase := hearly hunbuilt
    simp [Request.Early, hpc] at hcase
  | verdict hpc haccess =>
    have hjudged : ∀ holdings, ¬ (mirror.judged config id holdings).1.Unbuilt := by
      intro holdings
      unfold Mirror.judged
      dsimp only
      split <;> exact not_false
    obtain ⟨hbefore, _⟩ :=
      haccess.unbuilt (fun _ _ => rfl) hjudged hunbuilt
    have hcase := hearly hbefore
    simp [Request.Early, hpc] at hcase
  | overRemove hpc hcell => exact absurd hunbuilt not_false
  | _ => exact ⟨hunbuilt, trivial⟩

theorem Delete.Step.sharedSound {next : Shared Key Hash × Delete Key Hash}
    (hsound : SharedSound config shared)
    (hstep : Delete.Step config shared id delete label next) : SharedSound config next.1 := by
  cases hstep with
  | spend => exact ⟨hsound.lists, hsound.listing⟩
  | deleting => exact ⟨hsound.lists, hsound.listing.deleteClaim _ _⟩
  | remove hpc haccess =>
    exact hsound.access haccess (fun _ => rfl) (fun _ _ => rfl)
      (fun _ _ hlists => ⟨not_false, _, hlists.remove _⟩)
  | _ => exact hsound

theorem Delete.Step.early {next : Shared Key Hash × Delete Key Hash}
    (hstep : Delete.Step config shared id delete label next)
    (hunbuilt : next.1.cell.Unbuilt) : shared.cell.Unbuilt := by
  cases hstep with
  | remove hpc haccess =>
    exact (haccess.unbuilt (fun _ _ => rfl) (fun _ => not_false) hunbuilt).1
  | _ =>
    exact hunbuilt

/-- An upload stays with its signer and its hash, and counts the deletions of
its claim when it makes it. -/
theorem Upload.Step.kept (hstep : Upload.Step config shared id upload label next) :
    next.1.deletions = shared.deletions ∧
      next.2.signer = upload.signer ∧ next.2.hash = upload.hash ∧
      (next.2.claimedAt = upload.claimedAt ∨
        next.2.claimedAt = some (shared.deletions upload.signer upload.hash)) := by
  cases hstep with
  | check hpc haccess | readTotal hpc haccess | record hpc haccess =>
    exact haccess.rule
      (P := fun next => next.1.deletions = shared.deletions ∧
        next.2.signer = upload.signer ∧ next.2.hash = upload.hash ∧
        (next.2.claimedAt = upload.claimedAt ∨
          next.2.claimedAt = some (shared.deletions upload.signer upload.hash)))
      (fun _ => ⟨rfl, rfl, rfl, Or.inl rfl⟩) (fun _ => ⟨rfl, rfl, rfl, Or.inl rfl⟩)
      (fun _ _ => ⟨rfl, rfl, rfl, Or.inl rfl⟩)
  | admitted | reserve =>
    unfold Upload.resume
    split <;> exact ⟨rfl, rfl, rfl, Or.inl rfl⟩
  | claim | commit => exact ⟨rfl, rfl, rfl, Or.inr rfl⟩
  | _ =>
    exact ⟨rfl, rfl, rfl, Or.inl rfl⟩

theorem Mirror.Step.kept {next : Shared Key Hash × Mirror Key Hash}
    (hstep : Mirror.Step config shared id mirror label next) :
    next.1.deletions = shared.deletions ∧ next.2.signer = mirror.signer := by
  cases hstep with
  | check hpc haccess =>
    refine haccess.rule
      (P := fun next => next.1.deletions = shared.deletions ∧ next.2.signer = mirror.signer)
      (fun _ => ⟨rfl, rfl⟩) (fun _ => ⟨rfl, rfl⟩) ?_
    intro cell result
    split
    · exact ⟨rfl, rfl⟩
    · split <;> exact ⟨rfl, rfl⟩
  | verdict hpc haccess =>
    exact haccess.rule
      (P := fun next => next.1.deletions = shared.deletions ∧ next.2.signer = mirror.signer)
      (fun _ => ⟨rfl, rfl⟩) (fun _ => ⟨rfl, rfl⟩) (fun _ _ => ⟨rfl, rfl⟩)
  | _ =>
    exact ⟨rfl, rfl⟩

theorem Delete.Step.todo {next : Shared Key Hash × Delete Key Hash}
    (hdevice : ∀ key ∈ delete.todo, key ∈ config.devices)
    (hstep : Delete.Step config shared id delete label next) :
    ∀ key ∈ next.2.todo, key ∈ config.devices := by
  have hnil : ∀ key ∈ ([] : List Key), key ∈ config.devices :=
    fun key hkey => absurd hkey List.not_mem_nil
  cases hstep with
  | spend hpc hnext =>
    obtain ⟨todo, fresh, hnext⟩ := hnext
    rw [hnext]
    exact hnil
  | find hpc hnext =>
    rcases hnext with ⟨todo, holders, hnext⟩ | ⟨answer, hnext⟩ <;>
    · rw [hnext]
      exact hnil
  | deleted hpc => exact fun key hkey => hkey
  | look hpc =>
    simp only [Delete.todo, hpc] at hdevice
    exact fun key hkey => hdevice key (List.mem_cons_of_mem _ hkey)
  | still hpc hnext =>
    rcases hnext with ⟨key, rest, htodo, hnext⟩ | hnext
    · simp only [Delete.todo, hpc, htodo] at hdevice
      rw [hnext]
      exact fun key hkey => hdevice key (List.mem_cons_of_mem _ hkey)
    · rw [hnext]
      exact hnil
  | remove hpc haccess =>
    refine haccess.rule
      (P := fun next => ∀ key ∈ next.2.todo, key ∈ config.devices)
      (fun _ => hdevice) (fun _ => hnil) (fun _ _ => hnil)
  | _ => exact hnil

theorem Delete.Step.deletions {next : Shared Key Hash × Delete Key Hash}
    (hstep : Delete.Step config shared id delete label next) (key : Key)
    (hash : Hash) : shared.deletions key hash ≤ next.1.deletions key hash := by
  cases hstep with
  | deleting hpc =>
    rename_i named todo blobDeleted
    by_cases hkey : key = named
    · by_cases hhash : hash = delete.hash <;> simp [hkey, hhash]
    · simp [hkey]
  | remove hpc haccess =>
    exact haccess.rule
      (P := fun next =>
        shared.deletions key hash ≤ next.1.deletions key hash)
      (fun _ => le_refl _) (fun _ => le_refl _) (fun _ _ => le_refl _)
  | _ =>
    exact le_refl _

/-! ## One step of the gate -/

theorem Sound.put {request : Request Key Hash}
    {next : Shared Key Hash × Request Key Hash} (hsound : Sound config state)
    (hrequest : state.requests id = some request)
    (hshared : SharedSound config next.1) (hdevice : next.2.ByDevice config)
    (hcounted : next.2.Counted next.1.deletions) (hdeletions : ∀ key hash,
      state.shared.deletions key hash ≤ next.1.deletions key hash)
    (hearly : next.1.cell.Unbuilt → state.shared.cell.Unbuilt ∧ next.2.Early) :
    Sound config (state.put id next) := by
  have hstarted : ∀ other, state.started ≤ other → other ≠ id := by
    intro other hother heq
    rw [heq] at hother
    rw [hsound.fresh id hother] at hrequest
    cases hrequest
  constructor
  · exact hshared
  · intro other hother
    simp only [State.put, Function.update_of_ne (hstarted other hother)]
    exact hsound.fresh other hother
  · intro other found hother
    rcases entry_of_update hother with ⟨_, rfl⟩ | ⟨_, hold⟩
    · exact hdevice
    · exact hsound.device other found hold
  · intro other found hother
    rcases entry_of_update hother with ⟨_, rfl⟩ | ⟨_, hold⟩
    · exact hcounted
    · intro key hash count hkept
      exact le_trans (hsound.counted other found hold key hash count hkept) (hdeletions key hash)
  · intro hunbuilt other found hother
    obtain ⟨hbefore, hnext⟩ := hearly hunbuilt
    rcases entry_of_update hother with ⟨_, rfl⟩ | ⟨_, hold⟩
    · exact hnext
    · exact hsound.early hbefore other found hold

omit [DecidableEq Key] [DecidableEq Hash] in
theorem Upload.counted_of_kept {found : Upload Key Hash} {deletions : Key → Hash → ℕ}
    (hcounted : (Request.upload upload).Counted deletions)
    (hsigner : found.signer = upload.signer) (hhash : found.hash = upload.hash)
    (hclaimed : found.claimedAt = upload.claimedAt ∨
      found.claimedAt = some (deletions upload.signer upload.hash)) :
    (Request.upload found).Counted deletions := by
  intro key hash count hkept
  simp only [Request.kept, hsigner, hhash] at hkept
  rcases hclaimed with hold | hnew
  · rw [hold] at hkept
    exact hcounted key hash count hkept
  · simp only [hnew, Option.map_some, Option.some.injEq, Prod.mk.injEq] at hkept
    rw [← hkept.1, ← hkept.2.1, ← hkept.2.2]

section

variable (hsound : Sound config state)
include hsound

theorem Upload.Step.sound (hrequest : state.requests id = some (.upload upload))
    (hstep : Upload.Step config state.shared id upload label next) :
    Sound config (state.put id (next.1, .upload next.2)) := by
  have hearly : state.shared.cell.Unbuilt → (Request.upload upload).Early :=
    fun hunbuilt => hsound.early hunbuilt id _ hrequest
  obtain ⟨hdeletions, hsigner, hhash, hclaimed⟩ := hstep.kept
  refine hsound.put hrequest (hstep.sharedSound hsound.shared hearly) ?_ ?_ ?_ (hstep.early hearly)
  · simp only [Request.ByDevice, hsigner]
    exact hsound.device id _ hrequest
  · rw [hdeletions]
    exact Upload.counted_of_kept (hsound.counted id _ hrequest) hsigner hhash hclaimed
  · intro key hash
    rw [hdeletions]

theorem Mirror.Step.sound {next : Shared Key Hash × Mirror Key Hash}
    (hrequest : state.requests id = some (.mirror mirror))
    (hstep : Mirror.Step config state.shared id mirror label next) :
    Sound config (state.put id (next.1, .mirror next.2)) := by
  have hearly : state.shared.cell.Unbuilt → (Request.mirror mirror).Early :=
    fun hunbuilt => hsound.early hunbuilt id _ hrequest
  obtain ⟨hdeletions, hsigner⟩ := hstep.kept
  refine hsound.put hrequest (hstep.sharedSound hsound.shared hearly) ?_ ?_ ?_ (hstep.early hearly)
  · simp only [Request.ByDevice, hsigner]
    exact hsound.device id _ hrequest
  · intro key hash count hkept
    cases hkept
  · intro key hash
    rw [hdeletions]

theorem Delete.Step.sound {next : Shared Key Hash × Delete Key Hash}
    (hrequest : state.requests id = some (.delete delete))
    (hstep : Delete.Step config state.shared id delete label next) :
    Sound config (state.put id (next.1, .delete next.2)) := by
  refine hsound.put hrequest (hstep.sharedSound hsound.shared)
    (hstep.todo (hsound.device id _ hrequest)) ?_ hstep.deletions
    (fun hunbuilt => ⟨hstep.early hunbuilt, trivial⟩)
  intro key hash count hkept
  cases hkept

theorem Upload.HangUp.sound (hrequest : state.requests id = some (.upload upload))
    (hstep : Upload.HangUp state.shared upload next) :
    Sound config (state.put id (next.1, .upload next.2)) := by
  have hearly : state.shared.cell.Unbuilt → (Request.upload upload).Early :=
    fun hunbuilt => hsound.early hunbuilt id _ hrequest
  have hdevice := hsound.device id _ hrequest
  have hcounted := hsound.counted id _ hrequest
  cases hstep with
  | wait hpc =>
    exact hsound.put hrequest hsound.shared hdevice hcounted
      (fun _ _ => le_refl _) (fun hunbuilt => ⟨hunbuilt, hearly hunbuilt⟩)
  | leave hpc =>
    exact hsound.put hrequest hsound.shared hdevice hcounted
      (fun _ _ => le_refl _) (fun hunbuilt => ⟨hunbuilt, trivial⟩)
  | drop hpc hfree =>
    exact hsound.put hrequest ⟨hsound.shared.lists, hsound.shared.listing⟩ hdevice hcounted
      (fun _ _ => le_refl _) (fun hunbuilt => ⟨hunbuilt, hearly hunbuilt⟩)

theorem Sound.start {order : Order Key Hash} (hsigner : order.signer ∈ config.devices) :
    Sound config
      { state with
        requests :=
          Function.update state.requests state.started (some order.request)
        started := state.started + 1 } := by
  have hrequest : order.request.ByDevice config ∧ order.request.Counted state.shared.deletions ∧
      order.request.Early := by
    cases order with
    | upload | mirror =>
      exact ⟨hsigner, fun _ _ _ hkept => (by cases hkept), trivial⟩
    | delete signer hash purge token =>
      exact ⟨fun key hkey => absurd hkey List.not_mem_nil,
        fun _ _ _ hkept => (by cases hkept), trivial⟩
  constructor
  · exact hsound.shared
  · intro id hid
    have hne : id ≠ state.started := by
      dsimp only at hid
      omega
    simp only [Function.update_of_ne hne]
    apply hsound.fresh
    dsimp only at hid
    omega
  · intro id request hfound
    rcases entry_of_update hfound with ⟨_, rfl⟩ | ⟨_, hold⟩
    · exact hrequest.1
    · exact hsound.device id request hold
  · intro id request hfound
    rcases entry_of_update hfound with ⟨_, rfl⟩ | ⟨_, hold⟩
    · exact hrequest.2.1
    · exact hsound.counted id request hold
  · intro hunbuilt id request hfound
    rcases entry_of_update hfound with ⟨_, rfl⟩ | ⟨_, hold⟩
    · exact hrequest.2.2
    · exact hsound.early hunbuilt id request hold

theorem Sound.step {next : State Key Hash} {action : Action Key Hash}
    (hstep : config.step state action = some next) : Sound config next := by
  cases Config.step_cases hstep with
  | start hsigner => exact hsound.start hsigner
  | upload hrequest hwork | mirror hrequest hwork | delete hrequest hwork
  | uploadHangUp hrequest hwork => exact hwork.sound hsound hrequest
  | mirrorHangUp hrequest hpc =>
    have hdevice := hsound.device _ _ hrequest
    have hcounted := hsound.counted _ _ hrequest
    exact hsound.put hrequest hsound.shared hdevice hcounted
      (fun _ _ => le_refl _) (fun hunbuilt =>
        ⟨hunbuilt, (hsound.early hunbuilt _ _ hrequest :)⟩)
  | otherClaim hkey =>
    exact ⟨⟨hsound.shared.lists, hsound.shared.listing.commit _ hkey⟩,
      hsound.fresh, hsound.device, hsound.counted, hsound.early⟩
  | otherDrop hkey =>
    exact ⟨⟨hsound.shared.lists, hsound.shared.listing.deleteClaim _ _⟩,
      hsound.fresh, hsound.device, hsound.counted, hsound.early⟩

end

theorem sound_initial (config : Config Key Hash) (store : Store Key Hash)
    (permits : ℕ) (spent : List ℕ) : Sound config (State.initial store permits spent) := by
  constructor
  · exact ⟨trivial, trivial⟩
  · intro id _
    rfl
  · intro id request hrequest
    cases hrequest
  · intro id request hrequest
    cases hrequest
  · intro _ id request hrequest
    cases hrequest

end GroupGate
end Wildbloom
