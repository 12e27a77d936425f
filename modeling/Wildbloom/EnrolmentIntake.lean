import Wildbloom.EnrolmentRevisions

/-!
# What is left out of the intake policy

A blob on the source waits in the intake policy until it is archived.  The
policy takes the blobs that wait longest, and one that left the source before
an archive had it waits for ever.
-/

namespace Wildbloom
namespace Enrolment

open Runs

/-! ## Ledgers -/

namespace Ledger

variable {ledger : Ledger} {hash : Hash}

def Whole (ledger : Ledger) : Prop :=
  ∀ hash, hash ∈ Tables.keys ledger.blobs ↔ hash ∈ ledger.order

theorem mem_keys_iff : hash ∈ Tables.keys ledger.blobs ↔ (ledger.get hash).isSome := by
  rw [Option.isSome_iff_ne_none, Ne, get, Tables.get_eq_none_iff, not_not]

theorem mem_keys_put {other : Hash} {old : LedgerBlob} (hget : ledger.get hash = some old)
    (blob : LedgerBlob) :
    other ∈ Tables.keys (ledger.put hash blob).blobs ↔ other ∈ Tables.keys ledger.blobs := by
  rw [put, Tables.mem_keys_insert]
  exact ⟨fun hin => hin.elim (fun heq => heq ▸ Tables.mem_keys_of_get hget) id, Or.inr⟩

/-- Every event keeps the order and the table together, and forgets no blob. -/
theorem Whole.note {Name : Type} (hwhole : ledger.Whole) (event : LedgerEvent Name) :
    (ledger.note event).Whole ∧
      ∀ hash ∈ Tables.keys ledger.blobs, hash ∈ Tables.keys (ledger.note event).blobs := by
  cases event with
  | seen time hash size uploaded =>
    have hknown : (ledger.get hash).isSome ↔ hash ∈ ledger.order :=
      mem_keys_iff.symm.trans (hwhole hash)
    refine ⟨fun other => ?_, fun other hother => (Tables.mem_keys_insert _).mpr (Or.inr hother)⟩
    simp only [Ledger.note, see, Tables.mem_keys_insert, hwhole other]
    split
    next hsome =>
      exact ⟨fun hin => hin.elim (fun heq => heq ▸ hknown.mp hsome) id, Or.inr⟩
    · rw [List.mem_append, List.mem_singleton, or_comm]
  | archived | lost =>
    simp only [Ledger.note, archive, lose]
    split
    next hget =>
      exact ⟨fun other => (mem_keys_put hget _).trans (hwhole other),
        fun other => (mem_keys_put hget _).mpr⟩
    · exact ⟨hwhole, fun _ => id⟩

end Ledger

section Runs

variable {Name : Type}

/-! ## The intake policy -/

/-- A table in which the intake policy has some blobs. -/
def Intakes (blobs : List Blob) (table : List (PolicyId × Desired Name)) : Prop :=
  .intake ∈ Tables.keys table ∧ ∀ spec, (.intake, spec) ∈ table → spec.blobs = blobs

theorem Intakes.insert {blobs : List Blob} {table : List (PolicyId × Desired Name)}
    (htable : Intakes blobs table) (chunk : Hash) (spec : Desired Name) :
    Intakes blobs (Tables.insert (.archive chunk) spec table) := by
  refine ⟨(Tables.mem_keys_insert spec).mpr (Or.inr htable.1), fun found hfound => ?_⟩
  rcases Tables.mem_insert hfound with hnew | hold
  · cases hnew
  · exact htable.2 found hold

/-- The policies of a run that has gone through the lost blobs. -/
def Run.plan (run : Run Name) : Option (List (PolicyId × Desired Name)) :=
  match run.pc with
  | .losses [] => desiredPolicies run.config run.ledger run.history
  | _ => none

/-! ## Runs -/

variable [DecidableEq Name] {allows : Profile → Name → Bool}
variable {disk : Disk Name} {run after : Run Name} {reply : Reply}

def Pc.arriving : Pc Name → List Hash
  | .arrivals todo => todo.map Prod.fst
  | _ => []

/-- The ledger has every blob of the source that has arrived. -/
structure Run.Gathers (run : Run Name) : Prop where
  whole : run.ledger.Whole
  source : ∀ hash ∈ Tables.keys run.source,
    hash ∈ run.pc.arriving ∨ hash ∈ Tables.keys run.ledger.blobs

/-- A step of a run notes one event at most, and one of a blob that arrives. -/
theorem Run.ledger_next (hnext : (run.next allows disk reply).2 = some after) :
    after.source = run.source ∧
    (after.ledger = run.ledger ∨ ∃ event : LedgerEvent Name, after.ledger = run.ledger.note event) ∧
    ∀ hash ∈ run.pc.arriving, hash ∈ after.pc.arriving ∨ hash ∈ Tables.keys after.ledger.blobs := by
  obtain ⟨config, now, source, ledger, history, pc⟩ := run
  simp only [Run.next, Run.readHistory, Run.arrive, Run.judge, Run.missing, Run.sign,
    Run.goto] at hnext
  -- Of the branches that go on, only those of arrivals have blobs left to read.
  repeat' split at hnext
  all_goals simp only [Option.some.injEq, Option.map_eq_some_iff, reduceCtorEq] at hnext
  all_goals
    obtain ⟨desired, -, rfl⟩ := hnext
    refine ⟨rfl, ?_, fun other hother => ?_⟩
  all_goals
    first
    | exact Or.inl rfl
    | exact Or.inr ⟨.seen _ _ _ _, rfl⟩
    | exact Or.inr ⟨.archived 0 _ [] .allArchivesVerified, rfl⟩
    | exact Or.inr ⟨.lost 0 _, rfl⟩
    | grind [Pc.arriving, Ledger.see, Ledger.get, Tables.mem_keys_insert, Tables.mem_keys_of_get]

theorem Run.Gathers.next (hgathers : run.Gathers)
    (hnext : (run.next allows disk reply).2 = some after) : after.Gathers := by
  obtain ⟨hsource, hledger, harrive⟩ := Run.ledger_next hnext
  have hnotes : after.ledger.Whole ∧
      ∀ hash ∈ Tables.keys run.ledger.blobs, hash ∈ Tables.keys after.ledger.blobs := by
    rcases hledger with heq | ⟨event, heq⟩
    · rw [heq]
      exact ⟨hgathers.whole, fun _ => id⟩
    · rw [heq]
      exact hgathers.whole.note event
  refine ⟨hnotes.1, fun hash hhash => ?_⟩
  rw [hsource] at hhash
  rcases hgathers.source hash hhash with harriving | hknown
  · exact harrive hash harriving
  · exact Or.inr (hnotes.2 hash hknown)

/-- The blobs of the ledger that are in no archive, oldest first. -/
def waiting (ledger : Ledger) : List Hash :=
  (ledger.order.filter fun hash => !(ledger.get hash).any (·.archived)).insertionSort
    fun one two => waitsBefore ledger one two

end Runs

end Enrolment
end Wildbloom
