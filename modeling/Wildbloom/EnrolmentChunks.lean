import Wildbloom.EnrolmentModel

/-!
# Arrivals and archive chunks

The order new blobs are taken in is a total order as long as no blob without an
upload time lies between two blobs whose times and hashes disagree.

The chunks of the archives are the shortest leading digits that few enough
hashes share, which says at once that they cover every hash, that none is part
of another, and what happens to them when the archives grow.
-/

namespace Wildbloom
namespace Enrolment

/-! ## Arrivals -/

/-- A blob without an upload time does not lie, by hash, between two blobs of
which the second was uploaded first. -/
def Unmixed (source : List (Hash × ℕ × Option ℕ)) : Prop :=
  ∀ one ∈ source, ∀ two ∈ source, ∀ three ∈ source, two.2.2 = none →
    one.1 < two.1 → two.1 < three.1 → ∀ first ∈ one.2.2, ∀ last ∈ three.2.2, first ≤ last

section Arrivals

variable {source : List (Hash × ℕ × Option ℕ)} {one two three : Hash × ℕ × Option ℕ}

theorem ascending_onSource {Name : Type} [DecidableEq Name] {config : Config Name}
    {inventory : List (InventoryRow Name)} (hsource : onSource config inventory = some source) :
    Tables.Ascending source := by
  have hfold : ∀ (rows : List (InventoryRow Name)) (found : List (Hash × ℕ × Option ℕ)),
      Tables.Ascending found →
      rows.foldlM (fun found row =>
        if row.sha256.length = 64 ∧ row.size ≠ 0 ∧ row.size ≤ maxBlobBytes then
          some (Tables.insert row.sha256 (row.size, row.uploaded) found)
        else none) found = some source → Tables.Ascending source := by
    intro rows
    induction rows with
    | nil =>
      intro found hfound hsome
      cases hsome
      exact hfound
    | cons row rows ih =>
      intro found hfound hsome
      rw [List.foldlM_cons] at hsome
      split at hsome
      · exact ih _ (hfound.insertWith _ _ _) hsome
      · cases hsome
  exact hfold _ [] List.Pairwise.nil hsource

theorem arrivesBefore_total (one two : Hash × ℕ × Option ℕ) :
    arrivesBefore one two = true ∨ arrivesBefore two one = true := by
  unfold arrivesBefore
  grind

theorem arrivesBefore_iff_of_untimed (huntimed : one.2.2 = none ∨ two.2.2 = none) :
    arrivesBefore one two = true ↔ one.1 ≤ two.1 := by
  unfold arrivesBefore
  grind

theorem arrivesBefore_iff_of_timed {first last : ℕ} (hone : one.2.2 = some first)
    (htwo : two.2.2 = some last) :
    arrivesBefore one two = true ↔ first < last ∨ first = last ∧ one.1 ≤ two.1 := by
  simp only [arrivesBefore, hone, htwo]
  grind

section Order

variable (hasc : Tables.Ascending source)
include hasc

theorem arrivesBefore_antisymm (hone : one ∈ source) (htwo : two ∈ source)
    (hfirst : arrivesBefore one two = true) (hsecond : arrivesBefore two one = true) :
    one = two := by
  have hhash : one.1 = two.1 := by
    unfold arrivesBefore at hfirst hsecond
    grind
  refine Prod.ext hhash (hasc.unique hone ?_)
  rw [hhash]
  exact htwo

variable (hunmixed : Unmixed source)
include hunmixed

/-- The blobs on both sides of one without a time are in order. -/
theorem arrivesBefore_trans_of_untimed (hone : one ∈ source) (htwo : two ∈ source)
    (hthree : three ∈ source) (huntimed : two.2.2 = none)
    (hfirst : arrivesBefore one two = true) (hsecond : arrivesBefore two three = true) :
    arrivesBefore one three = true := by
  have hstrict : ∀ row ∈ source, ∀ other ∈ source, row.1 ≤ other.1 → row.2.2 ≠ other.2.2 →
      row.1 < other.1 := by
    intro row hrow other hother hle hne
    refine lt_of_le_of_ne hle fun heq => hne (congrArg Prod.snd (hasc.unique hrow ?_))
    rw [heq]
    exact hother
  rw [arrivesBefore_iff_of_untimed (Or.inr huntimed)] at hfirst
  rw [arrivesBefore_iff_of_untimed (Or.inl huntimed)] at hsecond
  have hle := hfirst.trans hsecond
  cases honetime : one.2.2 with
  | none => exact (arrivesBefore_iff_of_untimed (Or.inl honetime)).mpr hle
  | some first =>
    cases hthreetime : three.2.2 with
    | none => exact (arrivesBefore_iff_of_untimed (Or.inr hthreetime)).mpr hle
    | some last =>
      have htimes := hunmixed one hone two htwo three hthree huntimed
        (hstrict one hone two htwo hfirst (by simp [honetime, huntimed]))
        (hstrict two htwo three hthree hsecond (by simp [hthreetime, huntimed]))
        first honetime last hthreetime
      rw [arrivesBefore_iff_of_timed honetime hthreetime]
      exact htimes.lt_or_eq.imp_right fun heq => ⟨heq, hle⟩

theorem arrivesBefore_trans (hone : one ∈ source) (htwo : two ∈ source) (hthree : three ∈ source)
    (hfirst : arrivesBefore one two = true) (hsecond : arrivesBefore two three = true) :
    arrivesBefore one three = true := by
  -- Otherwise the three go round, and one side of a blob without a time is out of order.
  by_contra hnot
  have hback := (arrivesBefore_total one three).resolve_left hnot
  cases htwotime : two.2.2 with
  | none =>
    exact hnot (arrivesBefore_trans_of_untimed hasc hunmixed hone htwo hthree htwotime hfirst
      hsecond)
  | some second =>
    cases honetime : one.2.2 with
    | none =>
      have hround :=
        arrivesBefore_trans_of_untimed hasc hunmixed hthree hone htwo honetime hback hfirst
      rw [← arrivesBefore_antisymm hasc htwo hthree hsecond hround] at hnot
      exact hnot hfirst
    | some first =>
      cases hthreetime : three.2.2 with
      | none =>
        have hround :=
          arrivesBefore_trans_of_untimed hasc hunmixed htwo hthree hone hthreetime hsecond hback
        rw [arrivesBefore_antisymm hasc hone htwo hfirst hround] at hnot
        exact hnot hsecond
      | some last =>
        rw [arrivesBefore_iff_of_timed honetime htwotime] at hfirst
        rw [arrivesBefore_iff_of_timed htwotime hthreetime] at hsecond
        rw [arrivesBefore_iff_of_timed honetime hthreetime] at hnot
        grind

/-- The sort only compares blobs of the source, so that it needs the order on
them alone. -/
theorem pairwise_arrivals : (source.insertionSort fun one two =>
    arrivesBefore one two).Pairwise fun one two => arrivesBefore one two = true := by
  let before : {row // row ∈ source} → {row // row ∈ source} → Prop :=
    fun one two => arrivesBefore one.1 two.1 = true
  have htotal : Std.Total before := ⟨fun one two => arrivesBefore_total one.1 two.1⟩
  have htrans : IsTrans _ before := ⟨fun one two three hfirst hsecond =>
    arrivesBefore_trans hasc hunmixed one.2 two.2 three.2 hfirst hsecond⟩
  have hmap := List.map_insertionSort before (fun one two => arrivesBefore one two = true)
    Subtype.val source.attach fun _ _ _ _ => Iff.rfl
  rw [List.attach_map_subtype_val] at hmap
  rw [← hmap, List.pairwise_map]
  exact List.pairwise_insertionSort before source.attach

end Order

/-- A blob without a time between two that disagree makes three go round. -/
theorem unmixed_of_trans (htrans : ∀ one ∈ source, ∀ two ∈ source, ∀ three ∈ source,
    arrivesBefore one two = true → arrivesBefore two three = true →
      arrivesBefore one three = true) : Unmixed source := by
  intro one hone two htwo three hthree huntimed hfirst hsecond first htimed last hlast
  have hround := htrans one hone two htwo three hthree
    ((arrivesBefore_iff_of_untimed (Or.inr huntimed)).mpr hfirst.le)
    ((arrivesBefore_iff_of_untimed (Or.inl huntimed)).mpr hsecond.le)
  rw [arrivesBefore_iff_of_timed htimed hlast] at hround
  omega

/-- The order of arrivals is total exactly on the inventories whose times and
hashes do not disagree around a blob without a time, and there is then one way to
sort them. -/
theorem arrivals_are_totally_ordered {Name : Type} [DecidableEq Name] (config : Config Name)
    (inventory : List (InventoryRow Name)) (source : List (Hash × ℕ × Option ℕ))
    (hsource : onSource config inventory = some source) :
    ((∀ one ∈ source, ∀ two ∈ source,
      (arrivesBefore one two = true ∨ arrivesBefore two one = true) ∧
      (arrivesBefore one two = true → arrivesBefore two one = true → one = two) ∧
      ∀ three ∈ source, arrivesBefore one two = true → arrivesBefore two three = true →
        arrivesBefore one three = true) ↔ Unmixed source) ∧
    (Unmixed source →
      (source.insertionSort fun one two => arrivesBefore one two).Pairwise
        (fun one two => arrivesBefore one two = true) ∧
      ∀ sorted : List (Hash × ℕ × Option ℕ), sorted.Perm source →
        sorted.Pairwise (fun one two => arrivesBefore one two = true) →
        sorted = source.insertionSort fun one two => arrivesBefore one two) := by
  have hasc := ascending_onSource hsource
  refine ⟨⟨fun horder => ?_, fun hunmixed => ?_⟩, fun hunmixed => ?_⟩
  · exact unmixed_of_trans fun one hone two htwo => (horder one hone two htwo).2.2
  · intro one hone two htwo
    exact ⟨arrivesBefore_total one two, arrivesBefore_antisymm hasc hone htwo,
      fun three hthree => arrivesBefore_trans hasc hunmixed hone htwo hthree⟩
  · refine ⟨pairwise_arrivals hasc hunmixed, fun sorted hperm hsorted => ?_⟩
    refine (hperm.trans (List.perm_insertionSort _ source).symm).eq_of_pairwise
      ?_ hsorted (pairwise_arrivals hasc hunmixed)
    intro one two hone htwo
    exact arrivesBefore_antisymm hasc (hperm.subset hone)
      ((List.perm_insertionSort _ source).subset htwo)

end Arrivals

def threeArrivals (one two three : Digit) (first last : ℕ) : List (InventoryRow ℕ) :=
  [⟨List.replicate 64 one, 1, none, some first⟩, ⟨List.replicate 64 two, 1, none, none⟩,
    ⟨List.replicate 64 three, 1, none, some last⟩]

def threeBlobs (one two three : Digit) (first last : ℕ) : List (Hash × ℕ × Option ℕ) :=
  [(List.replicate 64 one, 1, some first), (List.replicate 64 two, 1, none),
    (List.replicate 64 three, 1, some last)]

def anyType : Config ℕ where
  owner := 0
  profile := .directHttps
  source := ⟨1, 1⟩
  archives := [⟨2, 2⟩]
  acceptTypes := none

theorem onSource_threeArrivals (first last : ℕ) :
    onSource anyType (threeArrivals 1 2 3 first last) = some (threeBlobs 1 2 3 first last) := by
  rfl

theorem arrivals_are_totally_ordered_of_three :
    Unmixed (threeBlobs 1 2 3 1 5) ∧
      (threeBlobs 1 2 3 1 5).insertionSort (fun one two => arrivesBefore one two) =
        threeBlobs 1 2 3 1 5 := by
  have horder := arrivals_are_totally_ordered anyType (threeArrivals 1 2 3 1 5)
    (threeBlobs 1 2 3 1 5) (onSource_threeArrivals 1 5)
  have hunmixed : Unmixed (threeBlobs 1 2 3 1 5) := by
    unfold Unmixed
    decide
  exact ⟨hunmixed, ((horder.2 hunmixed).2 _ (List.Perm.refl _) (by decide)).symm⟩

/-- The first goes before the second and the second before the third by hash, and
the third before the first by time; sorting starts with either of two. -/
theorem arrivals_go_round :
    ∃ one ∈ threeBlobs 1 2 3 5 1, ∃ two ∈ threeBlobs 1 2 3 5 1, ∃ three ∈ threeBlobs 1 2 3 5 1,
      onSource anyType (threeArrivals 1 2 3 5 1) = some (threeBlobs 1 2 3 5 1) ∧
      arrivesBefore one two = true ∧ arrivesBefore two three = true ∧
      arrivesBefore three one = true ∧ arrivesBefore one three = false ∧
      [one, two, three].insertionSort (fun one two => arrivesBefore one two) ≠
        [two, three, one].insertionSort (fun one two => arrivesBefore one two) := by
  refine ⟨_, List.mem_cons_self, _, List.mem_cons_of_mem _ List.mem_cons_self, _,
    List.mem_cons_of_mem _ (List.mem_cons_of_mem _ List.mem_cons_self),
    onSource_threeArrivals 5 1, ?_⟩
  decide

/-! ## Archive chunks -/

def membersOf (hashes : List Hash) (chunk : Hash) : List Hash :=
  hashes.filter fun hash => decide (chunk <+: hash)

/-- The leading digits that were split before a chunk was reached. -/
def SplitAbove (hashes : List Hash) (chunk : Hash) : Prop :=
  ∀ shorter, shorter <+: chunk → shorter ≠ chunk → shorter ≠ [] →
    maxPolicyBlobs < (membersOf hashes shorter).length

structure IsChunk (hashes : List Hash) (chunk : Hash) : Prop where
  named : chunk ≠ []
  members : membersOf hashes chunk ≠ []
  small : (membersOf hashes chunk).length ≤ maxPolicyBlobs
  above : SplitAbove hashes chunk

section Chunks

variable {hashes : List Hash} {chunk next : Hash}

theorem mem_membersOf {hash : Hash} : hash ∈ membersOf hashes chunk ↔
    hash ∈ hashes ∧ chunk <+: hash := by
  simp [membersOf]

theorem groupByDigit_concat (hash : Hash) :
    groupByDigit chunk (hashes ++ [hash]) = Tables.insertWith (fun old new => old ++ new)
      (hash.take (chunk.length + 1)) [hash] (groupByDigit chunk hashes) := by
  simp [groupByDigit, List.foldl_append]

theorem ascending_groupByDigit : Tables.Ascending (groupByDigit chunk hashes) := by
  induction hashes using List.reverseRecOn with
  | nil => exact List.Pairwise.nil
  | append_singleton hashes hash ih =>
    rw [groupByDigit_concat]
    exact ih.insertWith _ _ _

theorem mem_groupByDigit {members : List Hash} :
    (next, members) ∈ groupByDigit chunk hashes ↔ members ≠ [] ∧
      members = hashes.filter fun hash => decide (hash.take (chunk.length + 1) = next) := by
  induction hashes using List.reverseRecOn generalizing next members with
  | nil => simp [groupByDigit]
  | append_singleton hashes hash ih =>
    have hget : ((Tables.get (hash.take (chunk.length + 1)) (groupByDigit chunk hashes)).map
          (· ++ [hash])).getD [hash] = (hashes.filter fun other =>
            decide (other.take (chunk.length + 1) = hash.take (chunk.length + 1))) ++ [hash] := by
      cases hfound : Tables.get (hash.take (chunk.length + 1)) (groupByDigit chunk hashes) with
      | none =>
        have hempty : (hashes.filter fun other =>
            decide (other.take (chunk.length + 1) = hash.take (chunk.length + 1))) = [] := by
          by_contra hne
          exact Tables.get_eq_none_iff.mp hfound (List.mem_map.mpr ⟨_, ih.mpr ⟨hne, rfl⟩, rfl⟩)
        rw [hempty]
        rfl
      | some members =>
        rw [(ih.mp (Tables.mem_of_get hfound)).2]
        rfl
    rw [groupByDigit_concat, Tables.mem_insertWith ascending_groupByDigit, hget, ih,
      List.filter_append]
    by_cases hnext : next = hash.take (chunk.length + 1)
    · simp only [hnext, ne_eq, not_true_eq_false, false_and, true_and, Prod.mk.injEq, false_or,
        decide_true, List.filter_cons_of_pos, List.filter_nil]
      exact ⟨fun hmembers => ⟨by simp [hmembers], hmembers⟩, And.right⟩
    · simp [hnext, Ne.symm hnext]

/-- One digit on, the groups are those of the longer digits. -/
theorem filter_membersOf (hchunk : chunk <+: next) (hlength : next.length = chunk.length + 1) :
    (membersOf hashes chunk).filter (fun hash => decide (hash.take (chunk.length + 1) = next)) =
      membersOf hashes next := by
  unfold membersOf
  rw [List.filter_filter]
  congr 1
  funext hash
  simp only [← Bool.decide_and, decide_eq_decide, ← hlength]
  constructor
  · rintro ⟨htake, -⟩
    rw [← htake]
    exact List.take_prefix _ _
  · intro hnext
    exact ⟨(List.prefix_iff_eq_take.mp hnext).symm, hchunk.trans hnext⟩

theorem mapM_eq_some_map {α β : Type} {f : α → Option β} {g : α → β} {items : List α}
    (hsome : ∀ item ∈ items, f item = some (g item)) : items.mapM f = some (items.map g) := by
  induction items with
  | nil => rfl
  | cons item items ih =>
    have htail := ih fun other hother => hsome other (List.mem_cons_of_mem _ hother)
    simp [List.mapM_cons, hsome item List.mem_cons_self, htail]

theorem IsChunk.eq_of_leading (hchunk : IsChunk hashes chunk) (hnext : IsChunk hashes next)
    (hleading : chunk <+: next) : chunk = next := by
  by_contra hne
  exact absurd (hnext.above chunk hleading hne hchunk.named) (not_lt.mpr hchunk.small)

/-- The chunks that start with some digits, each with its hashes. -/
structure ChunksOf (hashes : List Hash) (chunk : Hash) (chunks : List (Hash × List Hash)) :
    Prop where
  distinct : (chunks.map Prod.fst).Nodup
  mem_iff : ∀ next members, (next, members) ∈ chunks ↔
    chunk <+: next ∧ IsChunk hashes next ∧ members = membersOf hashes next

theorem IsChunk.partition (hchunk : IsChunk hashes chunk) (fuel : ℕ) :
    ∃ chunks, Enrolment.partition fuel (membersOf hashes chunk) chunk = some chunks ∧
      ChunksOf hashes chunk chunks := by
  refine ⟨[(chunk, membersOf hashes chunk)], ?_, List.nodup_singleton _, ?_⟩
  · unfold Enrolment.partition
    rw [if_pos ⟨hchunk.small, hchunk.named⟩]
  · intro next members
    rw [List.mem_singleton, Prod.mk.injEq]
    constructor
    · rintro ⟨rfl, rfl⟩
      exact ⟨List.prefix_rfl, hchunk, rfl⟩
    · rintro ⟨hleading, hnext, rfl⟩
      rw [hchunk.eq_of_leading hnext hleading]
      exact ⟨rfl, rfl⟩

theorem mem_groups (hleading : chunk <+: next) (hne : next ≠ chunk)
    (hmembers : membersOf hashes next ≠ []) :
    ∃ group ∈ groupByDigit chunk (membersOf hashes chunk), group.1 <+: next := by
  have hlonger : chunk.length < next.length :=
    lt_of_le_of_ne hleading.length_le fun heq => hne (hleading.eq_of_length heq).symm
  have hnext : (next.take (chunk.length + 1)).length = chunk.length + 1 := by
    rw [List.length_take]
    omega
  have hdigit : next.take (chunk.length + 1) <+: next := List.take_prefix _ _
  have hchunk : chunk <+: next.take (chunk.length + 1) :=
    List.prefix_of_prefix_length_le hleading hdigit (by omega)
  refine ⟨(_, membersOf hashes (next.take (chunk.length + 1))), mem_groupByDigit.mpr
    ⟨?_, (filter_membersOf hchunk hnext).symm⟩, hdigit⟩
  obtain ⟨hash, hhash⟩ := List.exists_mem_of_ne_nil _ hmembers
  obtain ⟨hmem, hstart⟩ := mem_membersOf.mp hhash
  exact List.ne_nil_of_mem (mem_membersOf.mpr ⟨hmem, hdigit.trans hstart⟩)

section Whole

variable (hnodup : hashes.Nodup) (hdigits : ∀ hash ∈ hashes, hash.length = 64)
include hdigits

include hnodup in
/-- Only one hash has all digits of a whole one. -/
theorem length_lt_of_overfull (hoverfull : maxPolicyBlobs < (membersOf hashes chunk).length) :
    chunk.length < 64 := by
  by_contra hlength
  have hall : ∀ hash ∈ membersOf hashes chunk, hash = chunk := by
    intro hash hhash
    obtain ⟨hmem, hchunk⟩ := mem_membersOf.mp hhash
    exact (hchunk.eq_of_length_le (by rw [hdigits hash hmem]; omega)).symm
  have hmembers : (membersOf hashes chunk).Nodup := hnodup.filter _
  rw [List.eq_replicate_iff.mpr ⟨rfl, hall⟩, List.nodup_replicate] at hmembers
  unfold maxPolicyBlobs at hoverfull
  omega

/-- A group of the next digit. -/
theorem group_spec (hlength : chunk.length < 64) {group : Hash × List Hash}
    (hgroup : group ∈ groupByDigit chunk (membersOf hashes chunk)) :
    chunk <+: group.1 ∧ group.1.length = chunk.length + 1 ∧
      group.2 = membersOf hashes group.1 ∧ group.2 ≠ [] := by
  obtain ⟨next, members⟩ := group
  obtain ⟨hne, hmembers⟩ := mem_groupByDigit.mp hgroup
  obtain ⟨hash, hhash⟩ := List.exists_mem_of_ne_nil _ hne
  rw [hmembers, List.mem_filter, mem_membersOf, decide_eq_true_eq] at hhash
  obtain ⟨⟨hmem, hchunk⟩, rfl⟩ := hhash
  have hnext : (hash.take (chunk.length + 1)).length = chunk.length + 1 := by
    rw [List.length_take, hdigits hash hmem]
    omega
  have hleading : chunk <+: hash.take (chunk.length + 1) :=
    List.prefix_of_prefix_length_le hchunk (List.take_prefix _ _) (by omega)
  rw [filter_membersOf hleading hnext] at hmembers
  exact ⟨hleading, hnext, hmembers, hne⟩

/-- The chunks of the groups are together those of the digits they share. -/
theorem chunksOf_groups (hlength : chunk.length < 64)
    (hoverfull : chunk ≠ [] → maxPolicyBlobs < (membersOf hashes chunk).length)
    {parts : Hash × List Hash → List (Hash × List Hash)}
    (hparts : ∀ group ∈ groupByDigit chunk (membersOf hashes chunk),
      ChunksOf hashes group.1 (parts group)) :
    ChunksOf hashes chunk ((groupByDigit chunk (membersOf hashes chunk)).flatMap parts) := by
  refine ⟨?_, ?_⟩
  · rw [List.map_flatMap, List.nodup_flatMap]
    refine ⟨fun group hgroup => (hparts group hgroup).distinct, ?_⟩
    refine ascending_groupByDigit.imp_of_mem fun {one two} hone htwo hlt => ?_
    intro id hid hother
    obtain ⟨first, hfirst, rfl⟩ := List.mem_map.mp hid
    obtain ⟨second, hsecond, hsame⟩ := List.mem_map.mp hother
    have hstart := (((hparts one hone).mem_iff _ _).mp hfirst).1
    have hstart' := (((hparts two htwo).mem_iff _ _).mp hsecond).1
    rw [hsame] at hstart'
    have hlengths : one.1.length = two.1.length := by
      rw [(group_spec hdigits hlength hone).2.1, (group_spec hdigits hlength htwo).2.1]
    have hshort := List.prefix_of_prefix_length_le hstart hstart' hlengths.le
    exact hlt.ne (hshort.eq_of_length hlengths)
  · intro next members
    rw [List.mem_flatMap]
    constructor
    · rintro ⟨group, hgroup, hmem⟩
      obtain ⟨hleading, hnext⟩ := ((hparts group hgroup).mem_iff next members).mp hmem
      exact ⟨(group_spec hdigits hlength hgroup).1.trans hleading, hnext⟩
    · rintro ⟨hleading, hnext, hmembers⟩
      have hne : next ≠ chunk := by
        rintro rfl
        exact absurd (hoverfull hnext.named) (not_lt.mpr hnext.small)
      obtain ⟨group, hgroup, hdigit⟩ := mem_groups hleading hne hnext.members
      exact ⟨group, hgroup, ((hparts group hgroup).mem_iff next members).mpr
        ⟨hdigit, hnext, hmembers⟩⟩

include hnodup

theorem exists_chunksOf (fuel : ℕ) (hfuel : chunk.length + fuel = 64)
    (hmembers : chunk ≠ [] → membersOf hashes chunk ≠ []) (habove : SplitAbove hashes chunk) :
    ∃ chunks, partition fuel (membersOf hashes chunk) chunk = some chunks ∧
      ChunksOf hashes chunk chunks := by
  induction fuel generalizing chunk with
  | zero =>
    have hnamed : chunk ≠ [] := by
      rintro rfl
      cases hfuel
    refine IsChunk.partition ⟨hnamed, hmembers hnamed, ?_, habove⟩ 0
    by_contra hoverfull
    have hlength := length_lt_of_overfull hnodup hdigits (not_le.mp hoverfull)
    omega
  | succ fuel ih =>
    by_cases hchunk : IsChunk hashes chunk
    · exact hchunk.partition (fuel + 1)
    have hoverfull : chunk ≠ [] → maxPolicyBlobs < (membersOf hashes chunk).length := by
      intro hnamed
      by_contra hsmall
      exact hchunk ⟨hnamed, hmembers hnamed, not_lt.mp hsmall, habove⟩
    have hlength : chunk.length < 64 := by omega
    have hsplit : ∀ group ∈ groupByDigit chunk (membersOf hashes chunk),
        SplitAbove hashes group.1 := by
      intro group hgroup shorter hshorter hne hnamed
      obtain ⟨hleading, hnext, -, -⟩ := group_spec hdigits hlength hgroup
      have hlt : shorter.length < group.1.length :=
        lt_of_le_of_ne hshorter.length_le fun heq => hne (hshorter.eq_of_length heq)
      have hstart : shorter <+: chunk :=
        List.prefix_of_prefix_length_le hshorter hleading (by omega)
      by_cases heq : shorter = chunk
      · rw [heq] at hnamed ⊢
        exact hoverfull hnamed
      · exact habove shorter hstart heq hnamed
    have hparts : ∀ group ∈ groupByDigit chunk (membersOf hashes chunk),
        ∃ chunks, partition fuel group.2 group.1 = some chunks ∧
          ChunksOf hashes group.1 chunks := by
      intro group hgroup
      obtain ⟨-, hnext, hgroupMembers, hne⟩ := group_spec hdigits hlength hgroup
      rw [hgroupMembers] at hne ⊢
      exact ih (by omega) (fun _ => hne) (hsplit group hgroup)
    choose! parts hsome hspec using hparts
    refine ⟨_, ?_, chunksOf_groups hdigits hlength hoverfull hspec⟩
    unfold partition
    rw [if_neg, if_pos]
    · exact congrArg (Option.map List.flatten) (mapM_eq_some_map hsome)
    · rw [List.all_eq_true]
      intro hash hhash
      rw [hdigits hash (mem_membersOf.mp hhash).1]
      exact decide_eq_true hlength
    · rintro ⟨hsmall, hnamed⟩
      exact absurd (hoverfull hnamed) (not_lt.mpr hsmall)

theorem exists_partition :
    ∃ chunks, partition 64 hashes [] = some chunks ∧ ChunksOf hashes [] chunks := by
  have hall : membersOf hashes [] = hashes := by
    simp [membersOf]
  have habove : SplitAbove hashes [] := by
    intro shorter hshorter hne
    exact absurd (List.prefix_nil.mp hshorter) hne
  have hchunks := exists_chunksOf hnodup hdigits 64 rfl (fun hnamed => absurd rfl hnamed) habove
  rw [hall] at hchunks
  exact hchunks

/-- Of the leading digits of a hash, the first that are few enough. -/
theorem exists_isChunk {hash : Hash} (hhash : hash ∈ hashes) :
    ∃ chunk, IsChunk hashes chunk ∧ chunk <+: hash := by
  have hlast : ∃ count, 0 < count ∧
      (membersOf hashes (hash.take count)).length ≤ maxPolicyBlobs := by
    refine ⟨64, by decide, ?_⟩
    by_contra hoverfull
    have hlength := length_lt_of_overfull hnodup hdigits (not_le.mp hoverfull)
    rw [List.length_take, hdigits hash hhash] at hlength
    exact lt_irrefl _ hlength
  obtain ⟨hpositive, hsmall⟩ := Nat.find_spec hlast
  have hleading : hash.take (Nat.find hlast) <+: hash := List.take_prefix _ _
  refine ⟨hash.take (Nat.find hlast), ⟨?_, ?_, hsmall, ?_⟩, hleading⟩
  · intro hnil
    have hlength := congrArg List.length hnil
    rw [List.length_take, hdigits hash hhash, List.length_nil] at hlength
    omega
  · exact List.ne_nil_of_mem (mem_membersOf.mpr ⟨hhash, hleading⟩)
  · intro shorter hshorter hne hnamed
    have hlt : shorter.length < Nat.find hlast := by
      refine lt_of_lt_of_le ?_ (List.length_take_le (Nat.find hlast) hash)
      exact lt_of_le_of_ne hshorter.length_le fun heq => hne (hshorter.eq_of_length heq)
    have hearlier := Nat.find_min hlast hlt
    rw [← List.prefix_iff_eq_take.mp (hshorter.trans hleading)] at hearlier
    by_contra hfew
    exact hearlier ⟨List.length_pos_iff.mpr hnamed, not_lt.mp hfew⟩

end Whole

theorem SplitAbove.mono {more : List Hash} (hgrown : hashes ⊆ more) (hnodup : hashes.Nodup)
    (habove : SplitAbove hashes chunk) : SplitAbove more chunk := by
  intro shorter hshorter hne hnamed
  refine (habove shorter hshorter hne hnamed).trans_le ((hnodup.filter _).subperm ?_).length_le
  intro hash hhash
  obtain ⟨hmem, hstart⟩ := mem_membersOf.mp hhash
  exact mem_membersOf.mpr ⟨hgrown hmem, hstart⟩

/-- The partition covers each hash once by chunks of 1 to 128 hashes, none of which
contains another, and as the list grows a chunk keeps its id or is split. -/
theorem partition_is_sound (hashes : List Hash) (hnodup : hashes.Nodup)
    (hdigits : ∀ hash ∈ hashes, hash.length = 64) :
    ∃ chunks, partition 64 hashes [] = some chunks ∧
      (∀ hash ∈ hashes, ∃! chunk, chunk ∈ chunks ∧ hash ∈ chunk.2) ∧
      (∀ chunk ∈ chunks, 1 ≤ chunk.2.length ∧ chunk.2.length ≤ 128 ∧
        ∀ hash ∈ chunk.2, hash ∈ hashes ∧ chunk.1 <+: hash) ∧
      chunks.Pairwise (fun one two => ¬ one.1 <+: two.1 ∧ ¬ two.1 <+: one.1) ∧
      ∀ more grown, more.Nodup → (∀ hash ∈ more, hash.length = 64) → hashes ⊆ more →
        partition 64 more [] = some grown → ∀ chunk ∈ chunks,
          (∃ later ∈ grown, later.1 = chunk.1 ∧ chunk.2 ⊆ later.2) ∨
          ∀ later ∈ grown, later.1 ≠ chunk.1 ∧
            ∀ hash ∈ chunk.2, hash ∈ later.2 → chunk.1 <+: later.1 := by
  obtain ⟨chunks, hchunks, hdistinct, hmem⟩ := exists_partition hnodup hdigits
  have hspec : ∀ chunk ∈ chunks, IsChunk hashes chunk.1 ∧ chunk.2 = membersOf hashes chunk.1 :=
    fun chunk hchunk => ((hmem chunk.1 chunk.2).mp hchunk).2
  refine ⟨chunks, hchunks, ?_, ?_, ?_, ?_⟩
  · intro hash hhash
    obtain ⟨chunk, hchunk, hleading⟩ := exists_isChunk hnodup hdigits hhash
    refine ⟨(chunk, membersOf hashes chunk), ⟨(hmem _ _).mpr ⟨List.nil_prefix, hchunk, rfl⟩,
      mem_membersOf.mpr ⟨hhash, hleading⟩⟩, ?_⟩
    rintro ⟨other, members⟩ ⟨hother, hin⟩
    obtain ⟨-, hotherChunk, rfl⟩ := (hmem other members).mp hother
    have hsame : other = chunk :=
      (List.prefix_or_prefix_of_prefix (mem_membersOf.mp hin).2 hleading).elim
        (hotherChunk.eq_of_leading hchunk)
        fun hstart => (hchunk.eq_of_leading hotherChunk hstart).symm
    rw [hsame]
  · intro chunk hchunk
    obtain ⟨⟨hnamed, hmembers, hsmall, -⟩, heq⟩ := hspec chunk hchunk
    rw [heq]
    exact ⟨List.length_pos_iff.mpr hmembers, hsmall, fun hash => mem_membersOf.mp⟩
  · refine (List.pairwise_map.mp hdistinct).imp_of_mem fun {one two} hone htwo hne => ?_
    exact ⟨fun hleading => hne ((hspec one hone).1.eq_of_leading (hspec two htwo).1 hleading),
      fun hleading => hne ((hspec two htwo).1.eq_of_leading (hspec one hone).1 hleading).symm⟩
  · intro more grown hmore hmoreDigits hgrown hpartition chunk hchunk
    obtain ⟨found, hfound, -, hmemGrown⟩ := exists_partition hmore hmoreDigits
    cases hpartition.symm.trans hfound
    obtain ⟨⟨hnamed, hmembers, -, habove⟩, heq⟩ := hspec chunk hchunk
    have hsubset : membersOf hashes chunk.1 ⊆ membersOf more chunk.1 := by
      intro hash hhash
      obtain ⟨hin, hstart⟩ := mem_membersOf.mp hhash
      exact mem_membersOf.mpr ⟨hgrown hin, hstart⟩
    have habove' := habove.mono hgrown hnodup
    by_cases hsmall : (membersOf more chunk.1).length ≤ maxPolicyBlobs
    · left
      refine ⟨(chunk.1, membersOf more chunk.1), (hmemGrown _ _).mpr ⟨List.nil_prefix,
        ⟨hnamed, ?_, hsmall, habove'⟩, rfl⟩, rfl, ?_⟩
      · exact fun hnil => hmembers (List.subset_nil.mp (hnil ▸ hsubset))
      · rw [heq]
        exact hsubset
    · right
      intro later hlater
      obtain ⟨-, hlaterChunk, hlaterMembers⟩ := (hmemGrown later.1 later.2).mp hlater
      have hne : later.1 ≠ chunk.1 := by
        intro hsame
        rw [← hsame] at hsmall
        exact hsmall hlaterChunk.small
      refine ⟨hne, fun hash hhash hin => ?_⟩
      rw [heq] at hhash
      rw [hlaterMembers] at hin
      refine (List.prefix_or_prefix_of_prefix (mem_membersOf.mp hhash).2
        (mem_membersOf.mp hin).2).resolve_right fun hstart => ?_
      exact absurd (habove' later.1 hstart hne hlaterChunk.named) (not_lt.mpr hlaterChunk.small)

/-- Hashes that begin with one digit and differ in the digits after it. -/
def numbered (first : Digit) (count : ℕ) : List Hash :=
  ((List.product (List.finRange 16) (List.finRange 16)).take count).map fun digits =>
    first :: digits.1 :: List.replicate 62 digits.2

theorem nodup_numbered (first : Digit) (count : ℕ) : (numbered first count).Nodup := by
  apply List.Nodup.map
  · rintro ⟨second, third⟩ ⟨other, last⟩ hsame
    simpa [List.replicate_inj] using hsame
  · have hpairs := (List.nodup_finRange 16).product (List.nodup_finRange 16)
    exact hpairs.sublist (List.take_sublist _ _)

theorem length_of_mem_numbered {first : Digit} {count : ℕ} {hash : Hash}
    (hhash : hash ∈ numbered first count) : hash.length = 64 := by
  obtain ⟨digits, -, rfl⟩ := List.mem_map.mp hhash
  simp

/-- A full chunk, which two more hashes split into nine. -/
theorem partition_is_sound_of_a_split : ∃ grown,
    partition 64 (numbered 0 128) [] = some [([0], numbered 0 128)] ∧
      partition 64 (numbered 0 130) [] = some grown ∧ grown.length = 9 ∧
      ∀ later ∈ grown, 1 ≤ later.2.length ∧ later.2.length ≤ 128 ∧ later.1 ≠ [0] ∧
        ∀ hash ∈ numbered 0 128, hash ∈ later.2 → [0] <+: later.1 := by
  obtain ⟨chunks, hchunks, -, -, -, hgrowth⟩ :=
    partition_is_sound (numbered 0 128) (nodup_numbered _ _)
      fun _ => length_of_mem_numbered
  obtain ⟨grown, hgrown, -, hsize, -⟩ :=
    partition_is_sound (numbered 0 130) (nodup_numbered _ _)
      fun _ => length_of_mem_numbered
  have hfull : partition 64 (numbered 0 128) [] = some [([0], numbered 0 128)] := by decide +kernel
  have hnames : (partition 64 (numbered 0 130) []).map (fun grown => grown.map Prod.fst) =
      some [[0, 0], [0, 1], [0, 2], [0, 3], [0, 4], [0, 5], [0, 6], [0, 7], [0, 8]] := by
    decide +kernel
  rw [hgrown, Option.map_some, Option.some.injEq] at hnames
  have hsplit : ∀ later ∈ grown, later.1 ≠ [0] := by
    intro later hlater
    have hname := List.mem_map_of_mem (f := Prod.fst) hlater
    rw [hnames] at hname
    exact fun hsame => absurd (hsame ▸ hname) (by decide)
  cases hchunks.symm.trans hfull
  refine ⟨grown, hfull, hgrown, ?_, ?_⟩
  · rw [← List.length_map Prod.fst, hnames]
    rfl
  · intro later hlater
    refine ⟨(hsize later hlater).1, (hsize later hlater).2.1, hsplit later hlater, ?_⟩
    rcases hgrowth (numbered 0 130) grown (nodup_numbered _ _)
        (fun _ => length_of_mem_numbered)
        (List.map_subset _ (List.take_prefix_take_left (by decide)).subset) hgrown _
        (List.mem_singleton_self _) with ⟨kept, hkept, hsame, -⟩ | hreplaced
    · exact absurd hsame (hsplit kept hkept)
    · exact (hreplaced later hlater).2

end Chunks

end Enrolment
end Wildbloom
