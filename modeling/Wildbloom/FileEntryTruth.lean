import Wildbloom.FileEntryModel
import Wildbloom.GuardedRuns
import Wildbloom.SupersededCopies

/-!
# Key list entries are frozen and true

One canonical entry belongs to each envelope, and there is at most one envelope
for each file.  The entry the encryption builds is the canonical one as it
stands.  The entry rebuilt from a row is the canonical one because the row's
frozen columns say what was sealed, which is where it matters that the
encryption finds the file as it was when its row was made.
-/

namespace Wildbloom
namespace FileEntries

open KeyLists (KeyList)
open StoredCopies (getElem?_append)
open Runs

variable {Computer Path Name Media Content Hash : Type}

variable (rules : Rules Path Name Media Content Hash)
  (envelopes : List (Envelope Name Media Content Hash))
  (tasks : List (Computer × Task Path Name Media Hash)) {row : FileRecord Name Media Hash}

/-- When a file is encrypted, it has the length and the hash of its row. -/
def SteadyStep (state : State Computer Path Name Media Content Hash) :
    Action Computer Path Name Content → Prop
  | .advance id _ _ => ∀ name source columns record file,
      state.tasks[id]? = some (name, .encrypt source columns) →
      (state.computers name).file id = some record →
      (state.computers name).disk source = some file →
      rules.length file.content = record.columns.bytes ∧
        ∀ hash, record.columns.entryPlain = some hash → rules.sha256 file.content = hash
  | _ => True

/-! ## The invariant -/

def Task.isSealed : Task Path Name Media Hash → Bool
  | .hash _ _ _ _ | .restat _ _ _ _ _ | .queue _ _ _ _ | .encrypt _ _ => false
  | _ => true

def Task.Queues (row : FileRecord Name Media Hash) : Task Path Name Media Hash → Prop
  | .hash _ _ _ _ | .restat _ _ _ _ _ | .queue _ _ _ _ => False
  | .encrypt _ columns =>
    row.columns = columns ∧ row.mediaType = rules.guessMediaType columns.name
  | _ => True

def Task.Sound (id : ℕ) : Task Path Name Media Hash → Prop
  | .encrypt source columns =>
    columns.name = rules.sanitiseName source ∧
      (columns.path = columns.name ∨ rules.validPath columns.path = true)
  | .setKey record sha | .persist record sha | .setEnvelope record sha
  | .setMediaType record sha | .setPending record sha
  | .insertEntry record sha =>
    ∃ envelope : Envelope Name Media Content Hash,
      envelopes[sha]? = some envelope ∧ envelope.id = id ∧ envelope.columns = record.columns
  | _ => True

structure Envelope.Fits (envelope : Envelope Name Media Content Hash) : Prop where
  name : envelope.name = envelope.columns.name
  bytes : envelope.columns.bytes = rules.length envelope.content
  plain : ∀ hash, envelope.columns.entryPlain = some hash → hash = rules.sha256 envelope.content
  mediaType : rules.normaliseMediaType envelope.mediaType = some envelope.mediaType
  path : envelope.columns.path = envelope.columns.name ∨
    rules.validPath envelope.columns.path = true

def Canonical [DecidableEq Name] (rules : Rules Path Name Media Content Hash)
    (envelopes : List (Envelope Name Media Content Hash))
    (entry : ℕ × EntryData Name Media Hash) : Prop :=
  ∃ envelope : Envelope Name Media Content Hash,
    envelopes[entry.2.sha256]? = some envelope ∧ envelope.id = entry.1 ∧
    entry.2 = envelope.entry rules envelope.columns entry.2.sha256

structure FileRecord.Sound (row : FileRecord Name Media Hash) : Prop where
  task : ∃ (name : Computer) (task : Task Path Name Media Hash),
    tasks[row.id]? = some (name, task) ∧ task.Queues rules row
  columns : ∀ (sha : ℕ) (envelope : Envelope Name Media Content Hash),
    envelopes[sha]? = some envelope → envelope.id = row.id → row.columns = envelope.columns ∧
        rules.normaliseMediaType row.mediaType = some envelope.mediaType
  envelope : ∀ sha, row.sha256 = some sha → ∃ envelope : Envelope Name Media Content Hash,
      envelopes[sha]? = some envelope ∧ envelope.id = row.id ∧ row.size = some envelope.size

structure Local.Sound [DecidableEq Name] (rules : Rules Path Name Media Content Hash)
    (envelopes : List (Envelope Name Media Content Hash))
    (tasks : List (Computer × Task Path Name Media Hash))
    (computer : Local Path Name Media Content Hash) : Prop where
  rows : ∀ row ∈ computer.rows, row.Sound rules envelopes tasks
  keys : ∀ id key, computer.keychain id = some key → ∃ envelope : Envelope Name Media Content Hash,
      envelopes[key]? = some envelope ∧ envelope.id = id
  slot : ∀ list, computer.slot = some list → ∀ entry ∈ list.entries, Canonical rules envelopes entry
  sealedCopy : ∀ list, computer.sealedCopy = some list →
    ∀ entry ∈ list.entries, Canonical rules envelopes entry

structure EnvelopesSound : Prop where
  fits : ∀ (sha : ℕ) (envelope : Envelope Name Media Content Hash),
    envelopes[sha]? = some envelope → envelope.Fits rules
  unique : ∀ (sha other : ℕ) (envelope found : Envelope Name Media Content Hash),
    envelopes[sha]? = some envelope → envelopes[other]? = some found →
      envelope.id = found.id → sha = other
  sealedTask : ∀ (sha : ℕ) (envelope : Envelope Name Media Content Hash),
    envelopes[sha]? = some envelope → ∃ (name : Computer) (task : Task Path Name Media Hash),
        tasks[envelope.id]? = some (name, task) ∧ task.isSealed = true

structure Sound [DecidableEq Name] (rules : Rules Path Name Media Content Hash)
    (state : State Computer Path Name Media Content Hash) : Prop where
  envelopes : EnvelopesSound rules state.envelopes state.tasks
  locals : ∀ name, (state.computers name).Sound rules state.envelopes state.tasks
  tasks : ∀ (id : ℕ) (name : Computer) (task : Task Path Name Media Hash),
    state.tasks[id]? = some (name, task) → task.Sound rules state.envelopes id
  copies : ∀ list ∈ state.copies, ∀ entry ∈ list.entries, Canonical rules state.envelopes entry
  built : ∀ entry ∈ state.built, Canonical rules state.envelopes entry

section Entries

variable {rules envelopes tasks}
  {later : List (Computer × Task Path Name Media Hash)}
  {computer : Local Path Name Media Content Hash}
variable {id : ℕ} {name : Computer} {old next : Task Path Name Media Hash}
variable {entry : ℕ × EntryData Name Media Hash}

/-! ## Tasks move on -/

/-- Only the id, the columns, the type and the envelope of a row matter. -/
theorem FileRecord.Sound.of_eq {other : FileRecord Name Media Hash}
    (hrow : row.Sound rules envelopes tasks) (hid : other.id = row.id)
    (hcolumns : other.columns = row.columns) (hmedia : other.mediaType = row.mediaType)
    (hsha : other.sha256 = row.sha256) (hsize : other.size = row.size) :
    other.Sound rules envelopes tasks := by
  obtain ⟨⟨name, task, htask, hqueues⟩, hsame, henvelope⟩ := hrow
  refine ⟨⟨name, task, by rw [hid]; exact htask, ?_⟩, ?_, ?_⟩
  · cases task with
    | encrypt source columns =>
      rw [Task.Queues, hcolumns, hmedia]
      exact hqueues
    | _ => exact hqueues
  · rw [hid, hcolumns, hmedia]
    exact hsame
  · rw [hid, hsha, hsize]
    exact henvelope

/-- Every task of `tasks` is in `later`, at the same place or further on. -/
def Follows (rules : Rules Path Name Media Content Hash)
    (tasks later : List (Computer × Task Path Name Media Hash)) : Prop :=
  ∀ (id : ℕ) (name : Computer) (task : Task Path Name Media Hash), tasks[id]? = some (name, task) →
      ∃ (owner : Computer) (next : Task Path Name Media Hash), later[id]? = some (owner, next) ∧
        (∀ row, task.Queues rules row → next.Queues rules row) ∧
        (task.isSealed = true → next.isSealed = true)

theorem follows_set (hold : tasks[id]? = some (name, old))
    (hqueues : ∀ row, old.Queues rules row → next.Queues rules row)
    (hsealed : old.isSealed = true → next.isSealed = true) :
    Follows rules tasks (tasks.set id (name, next)) := by
  intro other owner task htask
  by_cases heq : id = other
  · rw [← heq, hold] at htask
    cases htask
    have hlength := (List.getElem?_eq_some_iff.mp hold).1
    refine ⟨name, next, ?_, hqueues, hsealed⟩
    rw [← heq, List.getElem?_set_self hlength]
  · refine ⟨owner, task, ?_, fun _ hfound => hfound, fun hfound => hfound⟩
    rw [List.getElem?_set_ne heq]
    exact htask

theorem follows_append (more : List (Computer × Task Path Name Media Hash)) :
    Follows rules tasks (tasks ++ more) := by
  intro other owner task htask
  exact ⟨owner, task, getElem?_append more htask, fun _ hfound => hfound, fun hfound => hfound⟩

theorem follows_stop [DecidableEq Computer] (name : Computer) :
    Follows rules tasks (tasks.map fun task =>
      if task.1 = name then (task.1, .done) else task) := by
  intro other owner task htask
  rw [List.getElem?_map, htask, Option.map_some]
  split
  · exact ⟨owner, .done, rfl, fun _ _ => trivial, fun _ => rfl⟩
  · exact ⟨owner, task, rfl, fun _ hfound => hfound, fun hfound => hfound⟩

theorem FileRecord.Sound.follow (hrow : row.Sound rules envelopes tasks)
    (hfollows : Follows rules tasks later) : row.Sound rules envelopes later := by
  obtain ⟨⟨owner, task, htask, hfound⟩, hcolumns, henvelope⟩ := hrow
  obtain ⟨name, next, hnext, hqueues, -⟩ := hfollows row.id owner task htask
  exact ⟨⟨name, next, hnext, hqueues row hfound⟩, hcolumns, henvelope⟩

theorem EnvelopesSound.follow (henvelopes : EnvelopesSound rules envelopes tasks)
    (hfollows : Follows rules tasks later) : EnvelopesSound rules envelopes later where
  fits := henvelopes.fits
  unique := henvelopes.unique
  sealedTask := by
    intro sha envelope hsha
    obtain ⟨owner, task, htask, hfound⟩ :=
      henvelopes.sealedTask sha envelope hsha
    obtain ⟨name, next, hnext, -, hsealed⟩ :=
      hfollows envelope.id owner task htask
    exact ⟨name, next, hnext, hsealed hfound⟩

/-! ## Sealing -/

theorem getElem?_concat {Item : Type} {items : List Item} {item found : Item}
    {place : ℕ} (hfound : (items ++ [item])[place]? = some found) :
    items[place]? = some found ∨ place = items.length ∧ found = item := by
  by_cases hlt : place < items.length
  · rw [List.getElem?_append_left hlt] at hfound
    exact Or.inl hfound
  · have hlength := (List.getElem?_eq_some_iff.mp hfound).1
    rw [List.length_append, List.length_singleton] at hlength
    have hplace : place = items.length := by omega
    rw [hplace, List.getElem?_concat_length, Option.some.injEq] at hfound
    exact Or.inr ⟨hplace, hfound.symm⟩

theorem getElem?_set_cases {Item : Type} {items : List Item} {item found : Item}
    {place other : ℕ} (hfound : (items.set place item)[other]? = some found) :
    other = place ∧ found = item ∨ items[other]? = some found := by
  by_cases heq : place = other
  · have hlength := (List.getElem?_eq_some_iff.mp hfound).1
    rw [List.length_set] at hlength
    rw [heq, List.getElem?_set_self hlength, Option.some.injEq] at hfound
    exact Or.inl ⟨heq.symm, hfound.symm⟩
  · rw [List.getElem?_set_ne heq] at hfound
    exact Or.inr hfound

variable {envelope : Envelope Name Media Content Hash}

theorem EnvelopesSound.seal (henvelopes : EnvelopesSound rules envelopes tasks)
    (hold : tasks[id]? = some (name, old)) (hopen : old.isSealed = false)
    (hnext : next.isSealed = true) (hfits : envelope.Fits rules) (hid : envelope.id = id) :
    EnvelopesSound rules (envelopes ++ [envelope]) (tasks.set id (name, next)) := by
  have hnone : ∀ (sha : ℕ) (found : Envelope Name Media Content Hash),
      envelopes[sha]? = some found → found.id ≠ id := by
    intro sha found hfound heq
    obtain ⟨owner, task, htask, hsealed⟩ :=
      henvelopes.sealedTask sha found hfound
    rw [heq, hold, Option.some.injEq, Prod.mk.injEq] at htask
    rw [← htask.2, hopen] at hsealed
    cases hsealed
  constructor
  · intro sha found hfound
    rcases getElem?_concat hfound with hsha | ⟨_, hnew⟩
    · exact henvelopes.fits sha found hsha
    · rw [hnew]
      exact hfits
  · intro sha other found another hfound hanother heq
    rcases getElem?_concat hfound with hsha | ⟨hsha, hnew⟩
    · rcases getElem?_concat hanother with hother | ⟨_, hnewer⟩
      · exact henvelopes.unique sha other found another hsha hother heq
      · rw [hnewer, hid] at heq
        exact absurd heq (hnone sha found hsha)
    · rcases getElem?_concat hanother with hother | ⟨hother, _⟩
      · rw [hnew, hid] at heq
        exact absurd heq.symm (hnone other another hother)
      · rw [hsha, hother]
  · intro sha found hfound
    rcases getElem?_concat hfound with hsha | ⟨_, hnew⟩
    · obtain ⟨owner, task, htask, hsealed⟩ :=
        henvelopes.sealedTask sha found hsha
      refine ⟨owner, task, ?_, hsealed⟩
      rw [List.getElem?_set_ne (hnone sha found hsha).symm]
      exact htask
    · have hlength := (List.getElem?_eq_some_iff.mp hold).1
      refine ⟨name, next, ?_, hnext⟩
      rw [hnew, hid, List.getElem?_set_self hlength]

theorem FileRecord.Sound.seal (hrow : row.Sound rules envelopes tasks)
    (hmatch : envelope.id = row.id → row.columns = envelope.columns ∧
      rules.normaliseMediaType row.mediaType = some envelope.mediaType) :
    row.Sound rules (envelopes ++ [envelope]) tasks := by
  obtain ⟨htask, hcolumns, henvelope⟩ := hrow
  refine ⟨htask, ?_, ?_⟩
  · intro sha found hfound hid
    rcases getElem?_concat hfound with hsha | ⟨_, hnew⟩
    · exact hcolumns sha found hsha hid
    · rw [hnew] at hid ⊢
      exact hmatch hid
  · intro sha hsha
    obtain ⟨found, hfound, hrest⟩ := henvelope sha hsha
    exact ⟨found, getElem?_append _ hfound, hrest⟩

theorem Task.Sound.seal {task : Task Path Name Media Hash} (htask : task.Sound rules envelopes id) :
    task.Sound rules (envelopes ++ [envelope]) id := by
  cases task with
  | setKey | persist | setEnvelope | setMediaType | setPending | insertEntry =>
    obtain ⟨found, hfound, hrest⟩ := htask
    exact ⟨found, getElem?_append _ hfound, hrest⟩
  | _ => exact htask

/-! ## Canonical entries -/

variable [DecidableEq Name]

theorem Canonical.append (hentry : Canonical rules envelopes entry)
    (more : List (Envelope Name Media Content Hash)) :
    Canonical rules (envelopes ++ more) entry := by
  obtain ⟨envelope, hsha, hid, hcanonical⟩ := hentry
  exact ⟨envelope, getElem?_append more hsha, hid, hcanonical⟩

/-- The path rebuilt from the columns is the one of the envelope's entry. -/
theorem Envelope.Fits.entryPath (hfits : envelope.Fits rules) :
    envelope.columns.entryPath rules =
      if envelope.columns.path = envelope.columns.name then envelope.name
      else envelope.columns.path := by
  unfold Columns.entryPath
  rw [hfits.name]
  by_cases hpath : envelope.columns.path = envelope.columns.name
  · rw [if_pos hpath, hpath]
    split <;> rfl
  · rw [if_neg hpath]
    have hvalid := hfits.path.resolve_left hpath
    rw [if_neg]
    intro hnone
    rw [hnone, rules.validPath_noName] at hvalid
    cases hvalid

/-! ## Rows and keys -/

section Locals

variable (henvelopes : EnvelopesSound rules envelopes tasks)
  (hlocal : computer.Sound rules envelopes tasks)

include henvelopes in
theorem rowForEntry_sound {entry : EntryData Name Media Hash}
    (hentry : Canonical rules envelopes (id, entry)) :
    (rowForEntry id entry).Sound rules envelopes tasks := by
  obtain ⟨envelope, hsha, hid, hcanonical⟩ := hentry
  have hfits := henvelopes.fits _ envelope hsha
  obtain ⟨name, task, htask, hsealed⟩ := henvelopes.sealedTask _ envelope hsha
  dsimp only at hsha hid hcanonical
  refine ⟨⟨name, task, ?_, ?_⟩, ?_, ?_⟩
  · rw [← hid]
    exact htask
  · cases task with
    | hash | restat | queue | encrypt => cases hsealed
    | _ => trivial
  · intro sha found hfound hfoundId
    have hsame : entry.sha256 = sha :=
      henvelopes.unique _ sha envelope found hsha hfound (hid.trans hfoundId.symm)
    have henvelope : found = envelope := by
      rw [hsame] at hsha
      exact Option.some.inj (hfound.symm.trans hsha)
    rw [henvelope]
    have hcolumns : (rowForEntry id entry).columns = envelope.columns := by
      rw [hcanonical]
      simp only [rowForEntry, Envelope.entry, ← hfits.bytes, hfits.name]
      congr 1
      split
      next hpath =>
        exact hpath.symm
      · rfl
    refine ⟨hcolumns, ?_⟩
    rw [hcanonical]
    exact hfits.mediaType
  · intro sha hrow
    cases hrow
    refine ⟨envelope, hsha, hid, ?_⟩
    rw [hcanonical]
    rfl

include hlocal

theorem Local.Sound.updateRow {change : FileRecord Name Media Hash → FileRecord Name Media Hash}
    (hchange : ∀ row, row.id = id → row.Sound rules envelopes tasks →
      (change row).Sound rules envelopes tasks) :
    (computer.updateRow id change).Sound rules envelopes tasks where
  rows := by
    intro row hrow
    obtain ⟨old, hold, rfl⟩ := List.mem_map.mp hrow
    split
    next hid =>
      exact hchange old hid (hlocal.rows old hold)
    · exact hlocal.rows old hold
  keys := hlocal.keys
  slot := hlocal.slot
  sealedCopy := hlocal.sealedCopy

theorem Local.Sound.setLocal (id : ℕ) (localState : LocalState) :
    (computer.setLocal id localState).Sound rules envelopes tasks :=
  hlocal.updateRow fun _ _ hrow => hrow.of_eq rfl rfl rfl rfl rfl

theorem Local.Sound.encryptFailed (id : ℕ) :
    (computer.encryptFailed id).Sound rules envelopes tasks := by
  unfold Local.encryptFailed
  split
  · exact hlocal
  · exact hlocal.setLocal id .unreadable

theorem Local.Sound.removeFileKey (id : ℕ) :
    (computer.removeFileKey id).Sound rules envelopes tasks where
  rows := hlocal.rows
  keys := by
    intro other key hkey
    by_cases heq : other = id
    · simp [Local.removeFileKey, heq] at hkey
    · simp only [Local.removeFileKey, Function.update_of_ne heq] at hkey
      exact hlocal.keys other key hkey
  slot := hlocal.slot
  sealedCopy := hlocal.sealedCopy

theorem Local.Sound.setFileKey {key : ℕ}
    (hkey : ∃ envelope : Envelope Name Media Content Hash,
      envelopes[key]? = some envelope ∧ envelope.id = id) :
    (computer.setFileKey id key).Sound rules envelopes tasks where
  rows := hlocal.rows
  keys := by
    intro other found hfound
    by_cases heq : other = id
    · simp only [Local.setFileKey, heq, Function.update_self, Option.some.injEq] at hfound
      rw [heq, ← hfound]
      exact hkey
    · simp only [Local.setFileKey, Function.update_of_ne heq] at hfound
      exact hlocal.keys other found hfound
  slot := hlocal.slot
  sealedCopy := hlocal.sealedCopy

theorem Local.Sound.addRow (hrow : row.Sound rules envelopes tasks) :
    Local.Sound rules envelopes tasks { computer with rows := computer.rows ++ [row] } where
  rows := by
    intro other hother
    rcases List.mem_append.mp hother with hold | hnew
    · exact hlocal.rows other hold
    · rw [List.mem_singleton.mp hnew]
      exact hrow
  keys := hlocal.keys
  slot := hlocal.slot
  sealedCopy := hlocal.sealedCopy

theorem Local.Sound.follow (hfollows : Follows rules tasks later) :
    computer.Sound rules envelopes later where
  rows := fun row hrow => (hlocal.rows row hrow).follow hfollows
  keys := hlocal.keys
  slot := hlocal.slot
  sealedCopy := hlocal.sealedCopy

theorem Local.Sound.seal (hmatch : ∀ row : FileRecord Name Media Hash,
      row.Sound rules envelopes tasks → envelope.id = row.id → row.columns = envelope.columns ∧
          rules.normaliseMediaType row.mediaType = some envelope.mediaType) :
    computer.Sound rules (envelopes ++ [envelope]) tasks where
  rows := fun row hrow =>
    (hlocal.rows row hrow).seal (hmatch row (hlocal.rows row hrow))
  keys := by
    intro other key hkey
    obtain ⟨found, hfound, hrest⟩ := hlocal.keys other key hkey
    exact ⟨found, getElem?_append _ hfound, hrest⟩
  slot := fun list hlist entry hentry =>
    (hlocal.slot list hlist entry hentry).append [envelope]
  sealedCopy := fun list hlist entry hentry =>
    (hlocal.sealedCopy list hlist entry hentry).append [envelope]

theorem Local.Sound.restart (mirror : Bool) :
    (computer.restart mirror).Sound rules envelopes tasks where
  rows := by
    intro row hrow
    obtain ⟨old, hold, hrestart⟩ := List.mem_filterMap.mp hrow
    have hsound := hlocal.rows old hold
    unfold restartRow at hrestart
    split at hrestart
    · split at hrestart
      · cases hrestart
      · cases hrestart
        exact hsound.of_eq rfl rfl rfl rfl rfl
    · cases hrestart
      exact hsound.of_eq rfl rfl rfl rfl rfl
    · cases hrestart
      exact hsound
  keys := by
    intro id key hkey
    simp only [Local.restart, Option.ite_none_left_eq_some] at hkey
    exact hlocal.keys id key hkey.2
  slot := by
    intro list hlist
    cases hlist
  sealedCopy := hlocal.sealedCopy

theorem Local.Sound.remove (id removedAt : ℕ) :
    (computer.remove id removedAt).Sound rules envelopes tasks where
  rows := fun row hrow => hlocal.rows row (List.mem_filter.mp hrow).1
  keys := (hlocal.removeFileKey id).keys
  slot := by
    intro list hlist entry hentry
    obtain ⟨old, hold, hnext⟩ := Option.map_eq_some_iff.mp hlist
    split at hnext
    next next hremove =>
      rw [← hnext] at hentry
      exact hlocal.slot old hold entry (KeyList.mem_entries_remove hremove hentry)
    · rw [← hnext] at hentry
      exact hlocal.slot old hold entry hentry
  sealedCopy := hlocal.sealedCopy

/-! ## Lists -/

variable {list : KeyList ℕ (EntryData Name Media Hash)}

theorem Local.Sound.setSlot (hlist : ∀ entry ∈ list.entries, Canonical rules envelopes entry) :
    Local.Sound rules envelopes tasks { computer with slot := some list } where
  rows := hlocal.rows
  keys := hlocal.keys
  slot := by
    intro found hfound
    cases hfound
    exact hlist
  sealedCopy := hlocal.sealedCopy

theorem Local.Sound.insertEntry [DecidableEq Media] (hslot : computer.slot = some list)
    {entry : EntryData Name Media Hash} (hentry : Canonical rules envelopes (id, entry)) :
    Local.Sound rules envelopes tasks
      { computer with
        slot := some
          (match list.insert (checkEntry rules) id entry with
          | .ok next => next
          | .error _ => list) } := by
  apply hlocal.setSlot
  intro found hfound
  split at hfound
  next next hinsert =>
    rcases KeyList.mem_entries_insert hinsert hfound with hnew | hmem
    · rw [hnew]
      exact hentry
    · exact hlocal.slot list hslot found hmem
  · exact hlocal.slot list hslot found hfound

include henvelopes

theorem canonical_of_row (hrow : row ∈ computer.rows)
    (hentry : row.entry rules computer.keychain = some entry) :
    Canonical rules envelopes entry := by
  obtain ⟨-, hcolumns, henvelope⟩ := hlocal.rows row hrow
  unfold FileRecord.entry at hentry
  split at hentry
  · cases hentry
  · split at hentry
    next sha size key hsha hsize hkey =>
      obtain ⟨envelope, hfound, hid, henvelopeSize⟩ := henvelope sha hsha
      obtain ⟨keyed, hkeyed, hkeyedId⟩ := hlocal.keys row.id key hkey
      have hkeySha : key = sha :=
        henvelopes.unique key sha keyed envelope hkeyed hfound (hkeyedId.trans hid.symm)
      have hsizes : size = envelope.size :=
        Option.some.inj (hsize.symm.trans henvelopeSize)
      obtain ⟨hsame, hmedia⟩ := hcolumns sha envelope hfound hid
      have hfits := henvelopes.fits sha envelope hfound
      cases hentry
      refine ⟨envelope, hfound, hid, ?_⟩
      simp only [Envelope.entry, hsame, hkeySha, hsizes, hmedia,
        Option.getD_some, hfits.entryPath, hfits.bytes, hfits.name]
    · cases hentry

theorem canonical_of_index (hentry : entry ∈ (computer.index rules).files) :
    Canonical rules envelopes entry := by
  obtain ⟨row, hrow, hbuilt⟩ := List.mem_filterMap.mp hentry
  exact canonical_of_row henvelopes hlocal hrow hbuilt

theorem canonical_of_builtEntries (hentry : entry ∈ computer.builtEntries rules list) :
    Canonical rules envelopes entry :=
  canonical_of_index henvelopes hlocal (List.mem_filter.mp hentry).1

variable [DecidableEq Media]

theorem canonical_of_reconcile (hlist : ∀ entry ∈ list.entries, Canonical rules envelopes entry) :
    ∀ entry ∈ (computer.reconcile rules list).entries, Canonical rules envelopes entry := by
  intro entry hentry
  rcases KeySync.Local.mem_entries_reconcileKeyList hentry with hold | hfile
  · exact hlist entry hold
  · exact canonical_of_index henvelopes hlocal hfile

theorem Local.Sound.loadKeyList (rebuild : Bool) :
    (computer.loadKeyList rules rebuild).1.Sound rules envelopes tasks ∧
      ∀ entry ∈ (computer.loadKeyList rules rebuild).2, Canonical rules envelopes entry := by
  unfold Local.loadKeyList
  split
  · refine ⟨hlocal, ?_⟩
    intro entry hentry
    cases hentry
  · have hlist : ∀ entry ∈
        (if rebuild then {} else computer.sealedCopy.getD {} :
          KeyList ℕ (EntryData Name Media Hash)).entries,
        Canonical rules envelopes entry := by
      intro entry hentry
      cases rebuild with
      | true => cases hentry
      | false =>
        cases hcopy : computer.sealedCopy with
        | none =>
          rw [hcopy] at hentry
          cases hentry
        | some list =>
          rw [hcopy] at hentry
          exact hlocal.sealedCopy list hcopy entry hentry
    refine ⟨hlocal.setSlot (canonical_of_reconcile henvelopes hlocal hlist), ?_⟩
    intro entry hentry
    exact canonical_of_builtEntries henvelopes hlocal hentry

end Locals

structure State.Fresh (state : State Computer Path Name Media Content Hash) : Prop where
  rows : ∀ name, (state.computers name).rows = []
  keychain : ∀ name id, (state.computers name).keychain id = none
  slot : ∀ name, (state.computers name).slot = none
  sealedCopy : ∀ name, (state.computers name).sealedCopy = none
  tasks : state.tasks = []
  envelopes : state.envelopes = []
  copies : state.copies = []
  built : state.built = []

variable {state : State Computer Path Name Media Content Hash}

theorem State.Fresh.sound (hfresh : state.Fresh) : Sound rules state := by
  have hnone : ∀ (sha : ℕ) (envelope : Envelope Name Media Content Hash),
      state.envelopes[sha]? ≠ some envelope := by
    intro sha envelope hsha
    rw [hfresh.envelopes] at hsha
    cases hsha
  refine ⟨⟨?_, ?_, ?_⟩, ?_, ?_, ?_, ?_⟩
  · exact fun sha envelope hsha => absurd hsha (hnone sha envelope)
  · exact fun sha _ envelope _ hsha => absurd hsha (hnone sha envelope)
  · exact fun sha envelope hsha => absurd hsha (hnone sha envelope)
  · intro name
    refine ⟨?_, ?_, ?_, ?_⟩
    · intro row hrow
      rw [hfresh.rows name] at hrow
      cases hrow
    · intro id key hkey
      rw [hfresh.keychain name id] at hkey
      cases hkey
    · intro list hlist
      rw [hfresh.slot name] at hlist
      cases hlist
    · intro list hlist
      rw [hfresh.sealedCopy name] at hlist
      cases hlist
  · intro id name task htask
    rw [hfresh.tasks] at htask
    cases htask
  · intro list hlist
    rw [hfresh.copies] at hlist
    cases hlist
  · intro entry hentry
    rw [hfresh.built] at hentry
    cases hentry

/-! ## Steps -/

variable [DecidableEq Computer] {task : Task Path Name Media Hash}
  {built : List (ℕ × EntryData Name Media Hash)}
variable {record : FileRecord Name Media Hash}

omit [DecidableEq Name] in
theorem computers_put {P : Local Path Name Media Content Hash → Prop}
    (hcomputer : P computer) (hothers : ∀ other, P (state.computers other)) (other : Computer) :
    P (Function.update state.computers name computer other) := by
  by_cases heq : other = name
  · rw [heq, Function.update_self]
    exact hcomputer
  · rw [Function.update_of_ne heq]
    exact hothers other

section

variable (hsound : Sound rules state)
include hsound

theorem Sound.put (hcomputer : computer.Sound rules state.envelopes state.tasks)
    (hbuilt : ∀ entry ∈ built, Canonical rules state.envelopes entry) :
    Sound rules (state.put name computer built) where
  envelopes := hsound.envelopes
  locals := computers_put hcomputer hsound.locals
  tasks := hsound.tasks
  copies := hsound.copies
  built := by
    intro entry hentry
    rcases List.mem_append.mp hentry with hold | hnew
    · exact hsound.built entry hold
    · exact hbuilt entry hnew

omit [DecidableEq Computer] in
theorem Sound.setTask (hold : state.tasks[id]? = some (name, old))
    (htask : task.Sound rules state.envelopes id)
    (hqueues : ∀ row, old.Queues rules row → task.Queues rules row)
    (hsealed : old.isSealed = true → task.isSealed = true) :
    Sound rules { state with tasks := state.tasks.set id (name, task) } where
  envelopes := hsound.envelopes.follow (follows_set hold hqueues hsealed)
  locals := fun other =>
    (hsound.locals other).follow (follows_set hold hqueues hsealed)
  tasks := by
    intro other owner found hfound
    rcases getElem?_set_cases hfound with ⟨rfl, hnew⟩ | hother
    · cases hnew
      exact htask
    · exact hsound.tasks other owner found hother
  copies := hsound.copies
  built := hsound.built

theorem Sound.queue {arrival : Arrival Name} {source : Path} {bytes now : ℕ} {plain : Hash}
    (hold : state.tasks[id]? = some (name, .queue arrival source bytes plain))
    (hrecord : queueNewFile rules arrival
      (state.computers name).computerName source bytes now plain id = some record) : Sound rules
      { state.put name { state.computers name with
            rows := (state.computers name).rows ++ [record] } [] with
        tasks := state.tasks.set id
          (name, .encrypt source record.columns) } := by
  have hlength := (List.getElem?_eq_some_iff.mp hold).1
  simp only [queueNewFile, Option.ite_none_right_eq_some, Option.some.injEq] at hrecord
  obtain ⟨⟨hpath, -⟩, hrecord⟩ := hrecord
  have hname : record.columns.name = rules.sanitiseName source := by
    rw [← hrecord]
    cases arrival with
    | window mirror freePath => cases mirror <;> rfl
    | folder rel prev => rfl
  have htask : (Task.encrypt source record.columns :
      Task Path Name Media Hash).Sound rules state.envelopes id := by
    refine ⟨hname, ?_⟩
    rw [← hrecord]
    exact hpath
  have hmoved := hsound.setTask hold htask (fun _ hfalse => hfalse.elim)
    (fun hfalse => by cases hfalse)
  have hrow : record.Sound rules state.envelopes
      (state.tasks.set id (name, .encrypt source record.columns)) := by
    refine ⟨⟨name, .encrypt source record.columns, ?_, rfl, ?_⟩, ?_, ?_⟩
    · rw [← hrecord, List.getElem?_set_self hlength]
    · rw [← hrecord]
    · intro sha envelope hsha hid
      obtain ⟨owner, found, hfound, hsealed⟩ :=
        hsound.envelopes.sealedTask sha envelope hsha
      rw [hid, ← hrecord, hold] at hfound
      cases hfound
      cases hsealed
    · intro sha hsha
      rw [← hrecord] at hsha
      cases hsha
  refine ⟨hmoved.envelopes, ?_, hmoved.tasks, hsound.copies, ?_⟩
  · exact computers_put ((hmoved.locals name).addRow hrow) hmoved.locals
  · intro entry hentry
    rw [State.put, List.append_nil] at hentry
    exact hsound.built entry hentry

theorem Sound.seal {source : Path} {columns : Columns Name Hash}
    (hguard : ∀ file, (state.computers name).disk source = some file →
      rules.length file.content = record.columns.bytes ∧
        ∀ hash, record.columns.entryPlain = some hash → rules.sha256 file.content = hash)
    (hold : state.tasks[id]? = some (name, .encrypt source columns))
    (hrecord : (state.computers name).file id = some record)
    (hencrypt : encryptNewFile rules (state.computers name) record source = some envelope) :
    Sound rules
      { state.put name (state.computers name) [] with
        tasks := state.tasks.set id (name, .setKey record state.envelopes.length)
        envelopes := state.envelopes ++ [envelope] } := by
  have hmem : record ∈ (state.computers name).rows :=
    List.mem_of_find?_eq_some hrecord
  have hid : record.id = id := by
    have hfound := List.find?_some hrecord
    rw [decide_eq_true_eq] at hfound
    exact hfound
  -- every row of the file is the one that was queued
  have hrows : ∀ row : FileRecord Name Media Hash,
      row.Sound rules state.envelopes state.tasks → row.id = id → row.columns = columns ∧
          row.mediaType = rules.guessMediaType columns.name := by
    intro row hrow hrowId
    obtain ⟨⟨owner, task, htask, hqueues⟩, -, -⟩ := hrow
    rw [hrowId, hold] at htask
    cases htask
    exact hqueues
  have hqueued := hrows record ((hsound.locals name).rows record hmem) hid
  obtain ⟨hname, hpath⟩ := hsound.tasks id name _ hold
  simp only [encryptNewFile, Option.bind_eq_bind, Option.bind_eq_some_iff,
    Option.ite_none_right_eq_some, Option.some.injEq] at hencrypt
  obtain ⟨file, hfile, mediaType, hmedia, -, henvelope⟩ := hencrypt
  obtain ⟨hbytes, hplain⟩ := hguard file hfile
  have hfits : envelope.Fits rules := by
    rw [← henvelope]
    refine ⟨?_, hbytes.symm, ?_, ?_, ?_⟩
    · dsimp only
      rw [hqueued.1, hname]
    · exact fun hash hhash => (hplain hash hhash).symm
    · exact rules.normalise_normalised _ _ hmedia
    · dsimp only
      rw [hqueued.1]
      exact hpath
  have henvelopeId : envelope.id = id := by
    rw [← henvelope]
    exact hid
  have hmatch : ∀ row : FileRecord Name Media Hash,
      row.Sound rules state.envelopes state.tasks → envelope.id = row.id →
        row.columns = envelope.columns ∧
          rules.normaliseMediaType row.mediaType = some envelope.mediaType := by
    intro row hrow hrowId
    rw [henvelopeId] at hrowId
    obtain ⟨hcolumns, hguess⟩ := hrows row hrow hrowId.symm
    rw [← henvelope]
    refine ⟨hcolumns.trans hqueued.1.symm, ?_⟩
    rw [hguess, ← hqueued.2]
    exact hmedia
  refine ⟨hsound.envelopes.seal hold rfl rfl hfits henvelopeId, ?_, ?_, ?_, ?_⟩
  · have hlocals : ∀ other, (state.computers other).Sound rules (state.envelopes ++ [envelope])
        (state.tasks.set id (name, .setKey record state.envelopes.length)) :=
      fun other => ((hsound.locals other).seal hmatch).follow
        (follows_set hold (fun _ _ => trivial) (fun _ => rfl))
    exact computers_put (hlocals name) hlocals
  · intro other owner found hfound
    rcases getElem?_set_cases hfound with ⟨rfl, hnew⟩ | hother
    · cases hnew
      refine ⟨envelope, List.getElem?_concat_length, henvelopeId, ?_⟩
      rw [← henvelope]
    · exact (hsound.tasks other owner found hother).seal
  · exact fun list hlist entry hentry =>
      (hsound.copies list hlist entry hentry).append [envelope]
  · intro entry hentry
    rw [State.put, List.append_nil] at hentry
    exact (hsound.built entry hentry).append [envelope]

theorem Sound.advance (hold : state.tasks[id]? = some (name, old))
    (hcomputer : computer.Sound rules state.envelopes state.tasks)
    (htask : task.Sound rules state.envelopes id)
    (hqueues : ∀ row, old.Queues rules row → task.Queues rules row)
    (hsealed : old.isSealed = true → task.isSealed = true)
    (hbuilt : ∀ entry ∈ built, Canonical rules state.envelopes entry) :
    Sound rules
      { state.put name computer built with
        tasks := state.tasks.set id (name, task)
        envelopes := state.envelopes ++
          (none : Option (Envelope Name Media Content Hash)).toList } := by
  have hput : Sound rules (state.put name computer built) :=
    hsound.put hcomputer hbuilt
  simp only [Option.toList_none, List.append_nil]
  exact hput.setTask hold htask hqueues hsealed

theorem Sound.finish (hold : state.tasks[id]? = some (name, old))
    (hcomputer : computer.Sound rules state.envelopes state.tasks)
    (hbuilt : ∀ entry ∈ built, Canonical rules state.envelopes entry) :
    Sound rules
      { state.put name computer built with
        tasks := state.tasks.set id (name, .done)
        envelopes := state.envelopes ++
          (none : Option (Envelope Name Media Content Hash)).toList } :=
  hsound.advance hold hcomputer trivial (fun _ _ => trivial) (fun _ => rfl) hbuilt

end

variable [DecidableEq Media] [DecidableEq Hash]

theorem Sound.task_step (hsound : Sound rules state) {ok : Bool} {now : ℕ}
    (hguard : ∀ source columns record file, old = .encrypt source columns →
      (state.computers name).file id = some record →
      (state.computers name).disk source = some file →
      rules.length file.content = record.columns.bytes ∧
        ∀ hash, record.columns.entryPlain = some hash → rules.sha256 file.content = hash)
    (hold : state.tasks[id]? = some (name, old)) {result : Result Path Name Media Content Hash}
    (hstep : old.step rules state.envelopes (state.computers name) id ok now = some result) :
    Sound rules
      { state.put name result.computer result.built with
        tasks := state.tasks.set id (name, result.task)
        envelopes := state.envelopes ++ result.sealedFile.toList } := by
  have hlocal := hsound.locals name
  have htask := hsound.tasks id name old hold
  have hnothing := List.forall_mem_nil (Canonical rules state.envelopes)
  have hdone := hsound.finish hold hlocal hnothing
  cases old with simp only [Task.step] at hstep
  | hash | restat =>
    -- the task ends or goes on with what it has read
    repeat' split at hstep
    all_goals cases hstep
    all_goals first
      | exact hdone
      | exact hsound.advance hold hlocal trivial
          (fun _ hqueues => hqueues) (fun hsealed => hsealed) hnothing
  | queue arrival source bytes plain =>
    split at hstep
    next record hrecord =>
      cases hstep
      simp only [Option.toList_none, List.append_nil]
      exact hsound.queue hold hrecord
    · cases hstep
      exact hdone
  | encrypt source columns =>
    split at hstep
    · cases hstep
      exact hdone
    next record hrecord =>
      split at hstep
      next envelope hencrypt =>
        split at hstep
        · cases hstep
          exact hsound.seal
            (fun file => hguard source columns record file rfl hrecord)
            hold hrecord hencrypt
        · cases hstep
          exact hsound.finish hold (hlocal.encryptFailed id) hnothing
      · cases hstep
        exact hsound.finish hold (hlocal.encryptFailed id) hnothing
  | setKey record sha =>
    have hkey : ∃ envelope : Envelope Name Media Content Hash,
        state.envelopes[sha]? = some envelope ∧ envelope.id = id := by
      obtain ⟨envelope, hsha, hid, -⟩ := htask
      exact ⟨envelope, hsha, hid⟩
    split at hstep
    · cases hstep
      exact hdone
    · split at hstep
      · cases hstep
        exact hsound.advance hold (hlocal.setFileKey hkey) htask
          (fun _ _ => trivial) (fun _ => rfl) hnothing
      · cases hstep
        exact hsound.finish hold (hlocal.setLocal id .unreadable) hnothing
  | persist record sha =>
    split at hstep
    · cases hstep
      exact hsound.advance hold hlocal htask (fun _ _ => trivial) (fun _ => rfl) hnothing
    · cases hstep
      exact hsound.finish hold ((hlocal.removeFileKey id).setLocal id .unreadable) hnothing
  | setEnvelope record sha =>
    split at hstep
    · cases hstep
      exact hsound.finish hold (hlocal.removeFileKey id) hnothing
    · cases hstep
      refine hsound.advance hold ?_ htask (fun _ _ => trivial) (fun _ => rfl) hnothing
      split
      · apply hlocal.updateRow
        intro row hid hrow
        obtain ⟨envelope, hsha, henvelope, -⟩ := htask
        refine ⟨hrow.task, hrow.columns, ?_⟩
        intro found hfound
        cases hfound
        refine ⟨envelope, hsha, henvelope.trans hid.symm, ?_⟩
        rw [hsha]
        rfl
      · exact hlocal
  | setMediaType record sha =>
    cases hstep
    refine hsound.advance hold ?_ htask (fun _ _ => trivial) (fun _ => rfl) hnothing
    split
    · obtain ⟨envelope, hsha, henvelope, -⟩ := htask
      rw [hsha]
      apply hlocal.updateRow
      intro row hid hrow
      obtain ⟨⟨owner, task, hfound, hqueues⟩, hcolumns, hrowEnvelope⟩ := hrow
      refine ⟨⟨owner, task, hfound, ?_⟩, ?_, hrowEnvelope⟩
      · rw [hid, hold] at hfound
        cases hfound
        trivial
      · intro other found hother hfoundId
        have hsame : other = sha :=
          hsound.envelopes.unique other sha found envelope hother hsha
            (hfoundId.trans (hid.trans henvelope.symm))
        have hfits := hsound.envelopes.fits sha envelope hsha
        rw [hsame, hsha, Option.some.injEq] at hother
        refine ⟨(hcolumns other found ?_ hfoundId).1, ?_⟩
        · rw [hsame, hsha, hother]
        · rw [← hother]
          exact hfits.mediaType
    · exact hlocal
  | setPending record sha =>
    cases hstep
    refine hsound.advance hold ?_ htask (fun _ _ => trivial) (fun _ => rfl) hnothing
    split
    · exact hlocal.setLocal id .pending
    · exact hlocal
  | insertEntry record sha =>
    have hload : (if ok then (state.computers name).loadKeyList rules false
          else (state.computers name, [])).1.Sound rules state.envelopes state.tasks ∧
        ∀ entry ∈ (if ok then (state.computers name).loadKeyList rules false
          else (state.computers name, [])).2,
          Canonical rules state.envelopes entry := by
      split
      · exact hlocal.loadKeyList hsound.envelopes false
      · exact ⟨hlocal, hnothing⟩
    generalize (if ok then (state.computers name).loadKeyList rules false
      else (state.computers name, [])) = loading at hload hstep
    obtain ⟨loaded, reconciled⟩ := loading
    obtain ⟨hsoundLoaded, hreconciled⟩ := hload
    split at hstep
    next list envelope hslot hsha =>
      obtain ⟨found, hfound, hid, hcolumns⟩ := htask
      have hcanonical : Canonical rules state.envelopes
          (id, envelope.entry rules record.columns sha) := by
        rw [hsha, Option.some.injEq] at hfound
        rw [← hfound] at hid hcolumns
        refine ⟨envelope, hsha, hid, ?_⟩
        rw [hcolumns]
        rfl
      cases hstep
      apply hsound.finish hold
      · exact hsoundLoaded.insertEntry hslot hcanonical
      · intro entry hentry
        rcases List.mem_append.mp hentry with hmem | hnew
        · exact hreconciled entry hmem
        · rw [List.mem_singleton.mp hnew]
          exact hcanonical
    · cases hstep
      exact hsound.finish hold hsoundLoaded hreconciled
  | done =>
    cases hstep

end Entries

/-! ## Runs -/

section Runs

variable [DecidableEq Computer] [DecidableEq Path] [DecidableEq Name] [DecidableEq Media]
  [DecidableEq Hash] {rules} {state after : State Computer Path Name Media Content Hash}
  {action : Action Computer Path Name Content}

theorem Sound.step (hsound : Sound rules state) (hguard : SteadyStep rules state action)
    (hstep : FileEntries.step rules state action = some after) : Sound rules after := by
  have hnothing := List.forall_mem_nil (Canonical rules state.envelopes)
  cases action with
  | write name path file =>
    obtain ⟨hrows, hkeys, hslot, hsealed⟩ := hsound.locals name
    cases hstep
    exact hsound.put ⟨hrows, hkeys, hslot, hsealed⟩ hnothing
  | add name arrival source =>
    simp only [FileEntries.step] at hstep
    split at hstep
    · split at hstep
      · cases hstep
        refine ⟨hsound.envelopes.follow (follows_append _),
          fun other => (hsound.locals other).follow (follows_append _), ?_,
          hsound.copies, hsound.built⟩
        intro id owner task htask
        rcases getElem?_concat htask with hold | ⟨_, hnew⟩
        · exact hsound.tasks id owner task hold
        · cases hnew
          trivial
      · cases hstep
    · cases hstep
  | advance id ok now =>
    simp only [FileEntries.step, Option.bind_eq_bind,
      Option.bind_eq_some_iff, Option.some.injEq] at hstep
    obtain ⟨⟨name, task⟩, hold, result, hresult, hafter⟩ := hstep
    rw [← hafter]
    refine hsound.task_step ?_ hold hresult
    intro source columns record file htask
    rw [htask] at hold
    exact hguard name source columns record file hold
  | load name rebuild =>
    cases hstep
    obtain ⟨hloaded, hbuilt⟩ :=
      (hsound.locals name).loadKeyList hsound.envelopes rebuild
    exact hsound.put hloaded hbuilt
  | reconcile name =>
    have hlocal := hsound.locals name
    obtain ⟨list, hslot, hafter⟩ := Option.map_eq_some_iff.mp hstep
    rw [← hafter]
    apply hsound.put
    · exact hlocal.setSlot (canonical_of_reconcile hsound.envelopes hlocal (hlocal.slot list hslot))
    · intro entry hentry
      exact canonical_of_builtEntries hsound.envelopes hlocal hentry
  | sealList name =>
    have hlocal := hsound.locals name
    simp only [FileEntries.step, Option.bind_eq_bind,
      Option.bind_eq_some_iff, Option.some.injEq] at hstep
    obtain ⟨list, hslot, next, hnext, hafter⟩ := hstep
    have hseal : list.sealList = .ok next := by
      cases hresult : list.sealList with
      | error error =>
        rw [hresult] at hnext
        cases hnext
      | ok found =>
        rw [hresult] at hnext
        cases hnext
        rfl
    have hlist : ∀ entry ∈ next.entries, Canonical rules state.envelopes entry := by
      rw [KeyList.entries_sealList hseal]
      exact hlocal.slot list hslot
    rw [← hafter]
    refine hsound.put ⟨hlocal.rows, hlocal.keys, ?_, ?_⟩ hnothing
    · intro found hfound
      cases hfound
      exact hlist
    · intro found hfound
      cases hfound
      exact hlist
  | lose name =>
    obtain ⟨hrows, hkeys, hslot, -⟩ := hsound.locals name
    cases hstep
    refine hsound.put ⟨hrows, hkeys, hslot, ?_⟩ hnothing
    intro list hlist
    cases hlist
  | publish name =>
    obtain ⟨list, hsealed, hafter⟩ := Option.map_eq_some_iff.mp hstep
    rw [← hafter]
    refine ⟨hsound.envelopes, hsound.locals, hsound.tasks, ?_, hsound.built⟩
    intro found hfound
    rcases List.mem_append.mp hfound with hold | hnew
    · exact hsound.copies found hold
    · rw [List.mem_singleton.mp hnew]
      exact (hsound.locals name).sealedCopy list hsealed
  | pull name copy =>
    have hlocal := hsound.locals name
    simp only [FileEntries.step, Option.bind_eq_bind,
      Option.bind_eq_some_iff, Option.some.injEq] at hstep
    obtain ⟨list, hslot, other, hother, merged, hmerged, hafter⟩ := hstep
    rw [← hafter]
    refine hsound.put (hlocal.setSlot ?_) hnothing
    intro entry hentry
    cases hmerge : KeyList.merge [list, other] with
    | error error =>
      rw [hmerge] at hmerged
      cases hmerged
    | ok found =>
      rw [hmerge] at hmerged
      cases hmerged
      obtain ⟨holder, hholder, hmem⟩ :=
        (KeyList.isJoin_of_merge hmerge).entry_mem entry hentry
      simp only [List.mem_cons, List.not_mem_nil, or_false] at hholder
      rcases hholder with hlist | hcopy
      · rw [hlist] at hmem
        exact hlocal.slot list hslot entry hmem
      · rw [hcopy] at hmem
        exact hsound.copies other (List.mem_of_getElem? hother) entry hmem
  | adopt name id =>
    have hlocal := hsound.locals name
    simp only [FileEntries.step, Option.bind_eq_bind, Option.bind_eq_some_iff] at hstep
    obtain ⟨list, hslot, entry, hentry, hadopt⟩ := hstep
    have hcanonical : Canonical rules state.envelopes (id, entry) :=
      hlocal.slot list hslot (id, entry) (Tables.mem_of_get hentry)
    have hkey : ∃ envelope : Envelope Name Media Content Hash,
        state.envelopes[entry.key]? = some envelope ∧ envelope.id = id := by
      obtain ⟨envelope, hsha, hid, hfields⟩ := hcanonical
      refine ⟨envelope, ?_, hid⟩
      have hkeySha : entry.key = entry.sha256 := by
        dsimp only at hfields
        rw [hfields]
        rfl
      rw [hkeySha]
      exact hsha
    split at hadopt
    · cases hadopt
    · cases hadopt
      exact hsound.put ((hlocal.setFileKey hkey).addRow
        (rowForEntry_sound hsound.envelopes hcanonical)) hnothing
  | place name id =>
    have hlocal := hsound.locals name
    simp only [FileEntries.step, Option.bind_eq_bind, Option.bind_eq_some_iff] at hstep
    obtain ⟨row, -, hplace⟩ := hstep
    split at hplace
    · cases hplace
    · cases hplace
      exact hsound.put (hlocal.setLocal id .unreadable) hnothing
    · cases hplace
      exact hsound.put (hlocal.setLocal id .unreadable) hnothing
    · cases hplace
      refine hsound.put (hlocal.updateRow ?_) hnothing
      intro row _ hrow
      exact hrow.of_eq rfl rfl rfl rfl rfl
  | mark name id localState =>
    simp only [FileEntries.step] at hstep
    split at hstep
    · cases hstep
    · cases hstep
      exact hsound.put ((hsound.locals name).setLocal id localState) hnothing
  | remove name id removedAt =>
    cases hstep
    exact hsound.put ((hsound.locals name).remove id removedAt) hnothing
  | restart name mirror =>
    have hput : Sound rules (state.put name ((state.computers name).restart mirror) []) :=
      hsound.put ((hsound.locals name).restart mirror) hnothing
    cases hstep
    refine ⟨hput.envelopes.follow (follows_stop name),
      fun other => (hput.locals other).follow (follows_stop name), ?_,
      hput.copies, hput.built⟩
    intro id owner task htask
    simp only [List.getElem?_map, Option.map_eq_some_iff] at htask
    obtain ⟨⟨found, old⟩, hold, hstop⟩ := htask
    split at hstop
    · cases hstop
      trivial
    · cases hstop
      exact hsound.tasks id owner task hold

end Runs

end FileEntries
end Wildbloom
