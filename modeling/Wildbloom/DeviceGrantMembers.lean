import Wildbloom.DeviceGrantRows
import Mathlib.Tactic

/-!
# Trusted rows

A row is trusted when both of its keys are members under its issuer.  Each
function that writes rows keeps every active row trusted, a revert only under
a condition on the rows it meets.
-/

namespace Wildbloom
namespace DeviceGrants

variable {Key : Type} [DecidableEq Key] {config : Config Key} {now : ℕ}

theorem grantActive_of_le {later : ℕ} {row : GrantRow Key}
    (hle : now ≤ later) (hactive : grantActive config later row = true) :
    grantActive config now row = true := by
  simp only [grantActive, Bool.and_eq_true, decide_eq_true_eq] at hactive ⊢
  obtain ⟨⟨hrevoked, huntil⟩, hissuer⟩ := hactive
  exact ⟨⟨hrevoked, by omega⟩, hissuer⟩

theorem GrantRow.names_iff (row : GrantRow Key) (key : Key) :
    row.names key = true ↔ row.device = key ∨ row.recovery = key := by
  simp [GrantRow.names]

namespace Rows

variable {rows : Rows Key} {key other issuer : Key} {member : Member Key}
variable {row : GrantRow Key} {rows : Rows Key} {device : Key} {previous : Option (GrantRow Key)}
  {captured : List (Key × Option (Member Key))} {event : GrantEvent Key} {group : Key → Bool}

@[simp] theorem grants_writeMember (rows : Rows Key) (key : Key) (member : Member Key) :
    (rows.writeMember key member).grants = rows.grants := rfl

@[simp] theorem grants_deleteMember (rows : Rows Key) (key : Key) :
    (rows.deleteMember key).grants = rows.grants := rfl

@[simp] theorem grants_restoreMember (rows : Rows Key) (key : Key) (member : Option (Member Key)) :
    (rows.restoreMember key member).grants = rows.grants := by
  cases member <;> rfl

theorem mem_rows : row ∈ rows.rows ↔ ∃ device, rows.grants.lookup device = some row := by
  simp only [Rows.rows, List.mem_map]
  constructor
  · rintro ⟨entry, hentry, rfl⟩
    exact ⟨entry.1, AList.mem_lookup_iff.mpr hentry⟩
  · rintro ⟨device, hlookup⟩
    exact ⟨⟨device, row⟩, AList.mem_lookup_iff.mp hlookup, rfl⟩

theorem keyActive_iff : rows.keyActive config now key = true ↔
      ∃ device row, rows.grants.lookup device = some row ∧
        row.names key = true ∧ grantActive config now row = true := by
  simp only [Rows.keyActive, List.any_eq_true, mem_rows, Bool.and_eq_true]
  constructor
  · rintro ⟨row, ⟨device, hlookup⟩, hnames, hactive⟩
    exact ⟨device, row, hlookup, hnames, hactive⟩
  · rintro ⟨device, row, hlookup, hnames, hactive⟩
    exact ⟨row, ⟨device, hlookup⟩, hnames, hactive⟩

theorem keyActive_of_le {later : ℕ} (hle : now ≤ later)
    (hactive : rows.keyActive config later key = true) : rows.keyActive config now key = true := by
  rw [keyActive_iff] at hactive ⊢
  obtain ⟨device, row, hlookup, hnames, hrow⟩ := hactive
  exact ⟨device, row, hlookup, hnames, grantActive_of_le hle hrow⟩

/-! ## Members -/

def HasMember (rows : Rows Key) (key issuer : Key) : Prop :=
  ∃ member, rows.members.lookup key = some member ∧ member.issuer = issuer

theorem hasMember_writeMember (rows : Rows Key) (key : Key) (member : Member Key) :
    (rows.writeMember key member).HasMember key member.issuer :=
  ⟨_, AList.lookup_insert _, rfl⟩

theorem HasMember.writeMember (hmember : rows.HasMember key issuer)
    (hsame : key = other → member.issuer = issuer) :
    (rows.writeMember other member).HasMember key issuer := by
  by_cases heq : key = other
  · have hwritten := hasMember_writeMember rows key member
    rw [hsame heq] at hwritten
    rw [← heq]
    exact hwritten
  · obtain ⟨found, hfound, hissuer⟩ := hmember
    refine ⟨found, ?_, hissuer⟩
    rw [← hfound]
    exact AList.lookup_insert_ne heq

theorem HasMember.deleteMember (hmember : rows.HasMember key issuer)
    (hne : key ≠ other) : (rows.deleteMember other).HasMember key issuer := by
  obtain ⟨found, hfound, hissuer⟩ := hmember
  refine ⟨found, ?_, hissuer⟩
  rw [← hfound]
  exact AList.lookup_erase_ne hne

/-- Put captured members back: the key stays a member under the issuer, or
becomes one, when each captured member of it is under the issuer. -/
theorem HasMember.foldl_restoreMember
    (hsame : ∀ entry ∈ captured, entry.1 = key →
      ∃ member, entry.2 = some member ∧ member.issuer = issuer)
    (hmember : rows.HasMember key issuer ∨ key ∈ captured.map Prod.fst) :
    (captured.foldl
      (fun rows entry => rows.restoreMember entry.1 entry.2)
      rows).HasMember key issuer := by
  induction captured generalizing rows with
  | nil =>
    rcases hmember with hmember | hmember
    · exact hmember
    · cases hmember
  | cons entry rest ih =>
    have hrest : ∀ entry ∈ rest, entry.1 = key →
        ∃ member, entry.2 = some member ∧ member.issuer = issuer :=
      fun found hfound => hsame found (List.mem_cons_of_mem _ hfound)
    rw [List.foldl_cons]
    apply ih hrest
    by_cases heq : entry.1 = key
    · obtain ⟨member, hcaptured, hissuer⟩ :=
        hsame entry List.mem_cons_self heq
      left
      rw [hcaptured, heq, ← hissuer]
      exact hasMember_writeMember rows key member
    · rcases hmember with hmember | hmember
      · left
        cases hcaptured : entry.2 with
        | none => exact hmember.deleteMember (Ne.symm heq)
        | some member =>
          exact hmember.writeMember (fun hkey => absurd hkey.symm heq)
      · right
        rw [List.map_cons, List.mem_cons] at hmember
        rcases hmember with hkey | hmember
        · exact absurd hkey.symm heq
        · exact hmember

variable (entries : List (Key × Member Key))

theorem HasMember.foldl_deleteMember (hmember : rows.HasMember key issuer)
    (hother : ∀ entry ∈ entries, key ≠ entry.1) :
    (entries.foldl (fun rows entry => rows.deleteMember entry.1) rows).HasMember key issuer := by
  refine List.foldlRecOn (motive := (HasMember · key issuer)) entries _ hmember ?_
  intro rows hmember entry hentry
  exact hmember.deleteMember (hother entry hentry)

theorem HasMember.foldl_writeMember (hmember : rows.HasMember key issuer)
    (hsame : ∀ entry ∈ entries, key = entry.1 → entry.2.issuer = issuer) :
    (entries.foldl (fun rows entry => rows.writeMember entry.1 entry.2)
      rows).HasMember key issuer := by
  refine List.foldlRecOn (motive := (HasMember · key issuer)) entries _ hmember ?_
  intro rows hmember entry hentry
  exact hmember.writeMember (hsame entry hentry)

theorem HasMember.foldl_putBack {current : Rows Key} (hcurrent : current.HasMember key issuer)
    (hmember : rows.HasMember key issuer) : (entries.foldl
      (fun rows entry =>
        if (current.members.lookup entry.1).isSome then rows
        else rows.writeMember entry.1 entry.2) rows).HasMember key issuer := by
  refine List.foldlRecOn (motive := (HasMember · key issuer)) entries _ hmember ?_
  intro rows hmember entry _
  split
  · exact hmember
  next habsent =>
    apply hmember.writeMember
    intro heq
    obtain ⟨found, hfound, _⟩ := hcurrent
    rw [← heq, hfound] at habsent
    exact absurd rfl habsent

/-! ## Keys that stay members -/

theorem HasMember.mem (hmember : rows.HasMember key issuer) : key ∈ rows.members := by
  obtain ⟨member, hlookup, _⟩ := hmember
  rw [← AList.lookup_isSome, hlookup]
  rfl

theorem mem_writeMember (hkey : key ∈ rows.members) (other : Key)
    (member : Member Key) : key ∈ (rows.writeMember other member).members :=
  (AList.mem_insert _).mpr (Or.inr hkey)

theorem mem_commitGrant (hkey : key ∈ rows.members) (event : GrantEvent Key) :
    key ∈ (rows.commitGrant config now event).members := by
  unfold Rows.commitGrant Rows.commitGrantTo
  apply mem_writeMember
  apply mem_writeMember
  exact hkey

theorem mem_commitRevoke (hkey : key ∈ rows.members) (device : Key) (createdAt at_ : ℕ) :
    key ∈ (rows.commitRevoke device createdAt at_).members := by
  unfold Rows.commitRevoke Rows.commitRevokeTo
  split <;> exact hkey

theorem mem_foldl_writeMember (hkey : key ∈ rows.members) :
    key ∈ (entries.foldl (fun rows entry => rows.writeMember entry.1 entry.2) rows).members := by
  induction entries generalizing rows with
  | nil => exact hkey
  | cons entry rest ih => exact ih (mem_writeMember hkey _ _)

theorem mem_foldl_putBack (current : Rows Key) (hkey : key ∈ rows.members) : key ∈ (entries.foldl
      (fun rows entry =>
        if (current.members.lookup entry.1).isSome then rows
        else rows.writeMember entry.1 entry.2) rows).members := by
  refine List.foldlRecOn (motive := (key ∈ Rows.members ·)) entries _ hkey ?_
  intro rows hkey entry _
  split
  · exact hkey
  · exact mem_writeMember hkey _ _

theorem mem_foldl_deleteMember (hkey : key ∈ rows.members) :
    key ∈ (entries.foldl (fun rows entry => rows.deleteMember entry.1)
      rows).members ∨ ∃ entry ∈ entries, entry.1 = key := by
  induction entries generalizing rows with
  | nil => exact Or.inl hkey
  | cons entry rest ih =>
    by_cases heq : entry.1 = key
    · exact Or.inr ⟨entry, List.mem_cons_self, heq⟩
    · have hkept : key ∈ (rows.deleteMember entry.1).members :=
        AList.mem_erase.mpr ⟨Ne.symm heq, hkey⟩
      rcases ih hkept with hmem | ⟨found, hfound, hfst⟩
      · exact Or.inl hmem
      · exact Or.inr ⟨found, List.mem_cons_of_mem _ hfound, hfst⟩

theorem mem_revert (hkey : key ∈ rows.members) :
    key ∈ (rows.revert device previous captured).members ∨ (key, none) ∈ captured := by
  have hfold : ∀ (captured : List (Key × Option (Member Key)))
      (rows : Rows Key), key ∈ rows.members → key ∈ (captured.foldl
          (fun rows entry => rows.restoreMember entry.1 entry.2)
          rows).members ∨ (key, none) ∈ captured := by
    intro captured
    induction captured with
    | nil => exact fun _ hkey => Or.inl hkey
    | cons entry rest ih =>
      intro rows hkey
      obtain ⟨other, member⟩ := entry
      cases member with
      | some member =>
        rcases ih _ (mem_writeMember hkey other member) with hmem | hnone
        · exact Or.inl hmem
        · exact Or.inr (List.mem_cons_of_mem _ hnone)
      | none =>
        by_cases heq : key = other
        · right
          rw [heq]
          exact List.mem_cons_self
        · have hkept : key ∈ (rows.deleteMember other).members :=
            AList.mem_erase.mpr ⟨heq, hkey⟩
          rcases ih _ hkept with hmem | hnone
          · exact Or.inl hmem
          · exact Or.inr (List.mem_cons_of_mem _ hnone)
  unfold Rows.revert
  apply hfold
  cases previous <;> exact hkey

omit [DecidableEq Key] in
theorem foldl_keep {Entry Field : Type} (field : Rows Key → Field)
    {write : Rows Key → Entry → Rows Key}
    (hwrite : ∀ rows entry, field (write rows entry) = field rows)
    (entries : List Entry) (rows : Rows Key) : field (entries.foldl write rows) = field rows := by
  induction entries generalizing rows with
  | nil => rfl
  | cons entry rest ih => rw [List.foldl_cons, ih, hwrite]

@[simp] theorem grants_foldl_restoreMember (rows : Rows Key) :
    (captured.foldl
      (fun rows entry => rows.restoreMember entry.1 entry.2)
      rows).grants = rows.grants :=
  foldl_keep Rows.grants (fun _ _ => grants_restoreMember ..) captured rows

@[simp] theorem grants_foldl_deleteMember (rows : Rows Key) :
    (entries.foldl (fun rows entry => rows.deleteMember entry.1) rows).grants = rows.grants :=
  foldl_keep Rows.grants (fun _ _ => grants_deleteMember ..) entries rows

@[simp] theorem grants_foldl_writeMember (rows : Rows Key) :
    (entries.foldl (fun rows entry => rows.writeMember entry.1 entry.2)
      rows).grants = rows.grants :=
  foldl_keep Rows.grants (fun _ _ => grants_writeMember ..) entries rows

@[simp] theorem grants_foldl_putBack (current rows : Rows Key) :
    (entries.foldl
      (fun rows entry =>
        if (current.members.lookup entry.1).isSome then rows
        else rows.writeMember entry.1 entry.2) rows).grants = rows.grants := by
  apply foldl_keep Rows.grants
  intro rows entry
  split
  · rfl
  · exact grants_writeMember rows entry.1 entry.2

/-! ## Trust -/

def Trusts (rows : Rows Key) (row : GrantRow Key) : Prop :=
  rows.HasMember row.device row.issuer ∧ rows.HasMember row.recovery row.issuer

theorem Trusts.hasMember (htrusts : rows.Trusts row)
    (hnames : row.names key = true) : rows.HasMember key row.issuer := by
  rcases (row.names_iff key).mp hnames with hkey | hkey
  · rw [← hkey]
    exact htrusts.1
  · rw [← hkey]
    exact htrusts.2

theorem trusts_of_names (hmembers : ∀ key, row.names key = true →
      rows.HasMember key row.issuer) : rows.Trusts row :=
  ⟨hmembers _ ((row.names_iff _).mpr (Or.inl rfl)), hmembers _ ((row.names_iff _).mpr (Or.inr rfl))⟩

/-- Rows stand under their device, and active rows are trusted. -/
structure Trusted (rows : Rows Key) (config : Config Key) (now : ℕ) : Prop where
  keyed : ∀ device row, rows.grants.lookup device = some row → row.device = device
  trusts : ∀ device row, rows.grants.lookup device = some row →
    grantActive config now row = true → rows.Trusts row

theorem Trusted.later {later : ℕ} (htrusted : rows.Trusted config now)
    (hle : now ≤ later) : rows.Trusted config later where
  keyed := htrusted.keyed
  trusts := fun device row hlookup hactive =>
    htrusted.trusts device row hlookup (grantActive_of_le hle hactive)

theorem Trusted.members {after : Rows Key}
    (htrusted : rows.Trusted config now) (hgrants : after.grants = rows.grants)
    (hmembers : ∀ key issuer, rows.keyActive config now key = true →
      rows.HasMember key issuer → after.HasMember key issuer) : after.Trusted config now := by
  constructor
  · intro device row hlookup
    rw [hgrants] at hlookup
    exact htrusted.keyed device row hlookup
  · intro device row hlookup hactive
    rw [hgrants] at hlookup
    apply trusts_of_names
    intro key hnames
    have hkey : rows.keyActive config now key = true :=
      keyActive_iff.mpr ⟨device, row, hlookup, hnames, hactive⟩
    exact hmembers key row.issuer hkey
      ((htrusted.trusts device row hlookup hactive).hasMember hnames)

theorem writeGrant_lookup {found : GrantRow Key}
    (hfound : (rows.writeGrant row).grants.lookup device = some found) :
    device = row.device ∧ found = row ∨
      device ≠ row.device ∧ rows.grants.lookup device = some found := by
  by_cases heq : device = row.device
  · rw [heq, Rows.writeGrant, AList.lookup_insert, Option.some.injEq] at hfound
    exact Or.inl ⟨heq, hfound.symm⟩
  · rw [Rows.writeGrant, AList.lookup_insert_ne heq] at hfound
    exact Or.inr ⟨heq, hfound⟩

/-- What a grant that meets no conflict shares with another device's row: only
the recovery key, and then the issuer. -/
theorem agrees_of_checkGrantConflicts
    (hconflict : rows.checkGrantConflicts config group event = none)
    (hlookup : rows.grants.lookup device = some row) (hdevice : row.device ≠ event.device) :
    row.recovery ≠ event.device ∧ row.device ≠ event.recovery ∧
      (row.recovery = event.recovery → row.issuer = event.owner) := by
  simp only [Rows.checkGrantConflicts, Option.orElse_eq_orElse,
    Option.orElse_eq_or, Option.or_eq_none_iff, List.findSome?_eq_none_iff] at hconflict
  obtain ⟨_, _, hrows, _⟩ := hconflict
  have hrow := hrows row (mem_rows.mpr ⟨device, hlookup⟩)
  rw [if_neg hdevice] at hrow
  split at hrow
  · cases hrow
  next hroles =>
    split at hrow
    · cases hrow
    next howner =>
      refine ⟨fun heq => hroles (Or.inl heq), fun heq => hroles (Or.inr heq), ?_⟩
      intro hrecovery
      by_contra hissuer
      exact howner ⟨hrecovery, hissuer⟩

theorem Trusted.commitGrant (htrusted : rows.Trusted config now)
    (hconflict : rows.checkGrantConflicts config group event = none) :
    (rows.commitGrant config now event).Trusted config now := by
  constructor
  · intro device row hlookup
    rcases writeGrant_lookup hlookup with ⟨hdevice, hrow⟩ | ⟨_, hold⟩
    · rw [hrow, hdevice]
    · exact htrusted.keyed device row hold
  · intro device row hlookup hactive
    rcases writeGrant_lookup hlookup with ⟨_, hrow⟩ | ⟨hother, hold⟩
    · rw [hrow]
      refine ⟨?_, hasMember_writeMember _ _ _⟩
      exact (hasMember_writeMember _ _ _).writeMember (fun _ => rfl)
    · have hkeyed := htrusted.keyed device row hold
      have hdevice : row.device ≠ event.device := by
        rw [hkeyed]
        exact hother
      obtain ⟨hfirst, hsecond, hissuer⟩ :=
        agrees_of_checkGrantConflicts hconflict hold hdevice
      have htrusts := htrusted.trusts device row hold hactive
      constructor
      · apply HasMember.writeMember
        · exact HasMember.writeMember htrusts.1 (fun heq => absurd heq hdevice)
        · exact fun heq => absurd heq hsecond
      · apply HasMember.writeMember
        · exact HasMember.writeMember htrusts.2 (fun heq => absurd heq hfirst)
        · exact fun heq => (hissuer heq).symm

theorem Trusted.commitRevoke (htrusted : rows.Trusted config now)
    (device : Key) (createdAt at_ : ℕ) :
    (rows.commitRevoke device createdAt at_).Trusted config now := by
  unfold Rows.commitRevoke Rows.commitRevokeTo
  split
  next row hrow =>
    constructor
    · intro other found hlookup
      rcases writeGrant_lookup hlookup with ⟨hdevice, hfound⟩ | ⟨_, hold⟩
      · rw [hfound, hdevice]
      · exact htrusted.keyed other found hold
    · intro other found hlookup hactive
      rcases writeGrant_lookup hlookup with ⟨_, hfound⟩ | ⟨_, hold⟩
      · rw [hfound] at hactive
        simp [grantActive] at hactive
      · exact htrusted.trusts other found hold hactive
  · exact ⟨htrusted.keyed, htrusted.trusts⟩

/-! ## Reverts -/

/-- The captured members of a row's keys, as far as they were captured, are
under its issuer. -/
def CapturedFor (captured : List (Key × Option (Member Key))) (row : GrantRow Key) : Prop :=
  ∀ entry ∈ captured, row.names entry.1 = true →
    ∃ member, entry.2 = some member ∧ member.issuer = row.issuer

theorem revert_lookup (hprevious : ∀ row, previous = some row → row.device = device)
    (hlookup : (rows.revert device previous captured).grants.lookup other = some row) :
    other = device ∧ previous = some row ∨
      other ≠ device ∧ rows.grants.lookup other = some row := by
  simp only [Rows.revert, grants_foldl_restoreMember] at hlookup
  cases previous with
  | none =>
    by_cases heq : other = device
    · rw [heq, Rows.deleteGrant, AList.lookup_erase] at hlookup
      cases hlookup
    · rw [Rows.deleteGrant, AList.lookup_erase_ne heq] at hlookup
      exact Or.inr ⟨heq, hlookup⟩
  | some restored =>
    rcases writeGrant_lookup hlookup with ⟨hother, hrow⟩ | ⟨hother, hold⟩
    · rw [hprevious restored rfl] at hother
      exact Or.inl ⟨hother, by rw [hrow]⟩
    · rw [hprevious restored rfl] at hother
      exact Or.inr ⟨hother, hold⟩

/-- A revert keeps active rows trusted when the other active rows that name a
captured key had it as a member before, and the restored row's recovery key is
captured or still a member. -/
theorem Trusted.revert (htrusted : rows.Trusted config now)
    (hdevice : device ∈ captured.map Prod.fst)
    (hprevious : ∀ row, previous = some row → row.device = device)
    (hothers : ∀ other row, rows.grants.lookup other = some row →
      other ≠ device → grantActive config now row = true →
        CapturedFor captured row) (hrestored : ∀ row, previous = some row →
      grantActive config now row = true → CapturedFor captured row ∧
          (row.recovery ∈ captured.map Prod.fst ∨ rows.HasMember row.recovery row.issuer)) :
    (rows.revert device previous captured).Trusted config now := by
  have hmember : ∀ row, CapturedFor captured row → ∀ key, row.names key = true →
      (rows.HasMember key row.issuer ∨ key ∈ captured.map Prod.fst) →
        (rows.revert device previous captured).HasMember key row.issuer := by
    intro row hcaptured key hnames hkey
    have hsame : ∀ entry ∈ captured, entry.1 = key →
        ∃ member, entry.2 = some member ∧ member.issuer = row.issuer := by
      intro entry hentry heq
      exact hcaptured entry hentry (heq ▸ hnames)
    unfold Rows.revert
    cases previous with
    | none | some => exact HasMember.foldl_restoreMember hsame hkey
  constructor
  · intro other row hlookup
    rcases revert_lookup hprevious hlookup with ⟨hother, hrow⟩ | ⟨_, hold⟩
    · rw [hother, hprevious row hrow]
    · exact htrusted.keyed other row hold
  · intro other row hlookup hactive
    rcases revert_lookup hprevious hlookup with ⟨_, hrow⟩ | ⟨hother, hold⟩
    · obtain ⟨hcaptured, hrecovery⟩ := hrestored row hrow hactive
      apply trusts_of_names
      intro key hnames
      apply hmember row hcaptured key hnames
      rcases (row.names_iff key).mp hnames with hkey | hkey
      · right
        rw [← hkey, hprevious row hrow]
        exact hdevice
      · rw [← hkey]
        exact hrecovery.symm
    · have hcaptured := hothers other row hold hother hactive
      apply trusts_of_names
      intro key hnames
      exact hmember row hcaptured key hnames
        (Or.inl ((htrusted.trusts other row hold hactive).hasMember hnames))

/-! ## The keys that rows know -/

theorem knows_iff : rows.knows key = true ↔ key ∈ rows.members ∨
      ∃ device row, rows.grants.lookup device = some row ∧ row.names key = true := by
  simp only [Rows.knows, Bool.or_eq_true, AList.lookup_isSome, List.any_eq_true, mem_rows]
  constructor
  · rintro (hmember | ⟨row, ⟨device, hlookup⟩, hnames⟩)
    · exact Or.inl hmember
    · exact Or.inr ⟨device, row, hlookup, hnames⟩
  · rintro (hmember | ⟨device, row, hlookup, hnames⟩)
    · exact Or.inl hmember
    · exact Or.inr ⟨row, ⟨device, hlookup⟩, hnames⟩

theorem knows_of_names (hlookup : rows.grants.lookup device = some row)
    (hnames : row.names key = true) : rows.knows key = true :=
  knows_iff.mpr (Or.inr ⟨device, row, hlookup, hnames⟩)

theorem mem_of_mem_writeMember (hkey : key ∈ (rows.writeMember other member).members) :
    key = other ∨ key ∈ rows.members :=
  (AList.mem_insert _).mp hkey

theorem knows_commitGrant (hknows : (rows.commitGrant config now event).knows key = true) :
    rows.knows key = true ∨ event.row.names key = true := by
  rcases knows_iff.mp hknows with hmember | ⟨device, row, hlookup, hnames⟩
  · rcases mem_of_mem_writeMember hmember with hrecovery | hmember
    · exact Or.inr ((event.row.names_iff key).mpr (Or.inr hrecovery.symm))
    · rcases mem_of_mem_writeMember hmember with hdevice | hmember
      · exact Or.inr ((event.row.names_iff key).mpr (Or.inl hdevice.symm))
      · exact Or.inl (knows_iff.mpr (Or.inl hmember))
  · rcases writeGrant_lookup hlookup with ⟨_, hrow⟩ | ⟨_, hold⟩
    · rw [hrow] at hnames
      exact Or.inr hnames
    · exact Or.inl (knows_of_names hold hnames)

theorem knows_commitRevoke {createdAt at_ : ℕ}
    (hknows : (rows.commitRevoke device createdAt at_).knows key = true) :
    rows.knows key = true := by
  unfold Rows.commitRevoke Rows.commitRevokeTo at hknows
  split at hknows
  next row hrow =>
    rcases knows_iff.mp hknows with hmember | ⟨other, found, hlookup, hnames⟩
    · exact knows_iff.mpr (Or.inl hmember)
    · rcases writeGrant_lookup hlookup with ⟨_, hfound⟩ | ⟨_, hold⟩
      · rw [hfound] at hnames
        exact knows_of_names hrow hnames
      · exact knows_of_names hold hnames
  · exact hknows

theorem mem_of_mem_foldl_restoreMember
    (hkey : key ∈ (captured.foldl
      (fun rows entry => rows.restoreMember entry.1 entry.2) rows).members) :
    key ∈ rows.members ∨ ∃ member, (key, some member) ∈ captured := by
  induction captured generalizing rows with
  | nil => exact Or.inl hkey
  | cons entry rest ih =>
    rcases ih hkey with hmem | ⟨member, hmember⟩
    · obtain ⟨other, restored⟩ := entry
      cases restored with
      | none => exact Or.inl (AList.mem_erase.mp hmem).2
      | some member =>
        rcases mem_of_mem_writeMember hmem with heq | hmem
        · exact Or.inr ⟨member, by rw [heq]; exact List.mem_cons_self⟩
        · exact Or.inl hmem
    · exact Or.inr ⟨member, List.mem_cons_of_mem _ hmember⟩

/-- A revert brings back only keys of the replaced row and captured members.
-/
theorem knows_revert (hknows : (rows.revert device previous captured).knows key = true) :
    rows.knows key = true ∨ (∃ row, previous = some row ∧ row.names key = true) ∨
      ∃ member, (key, some member) ∈ captured := by
  rcases knows_iff.mp hknows with hmember | ⟨other, row, hlookup, hnames⟩
  · unfold Rows.revert at hmember
    rcases mem_of_mem_foldl_restoreMember hmember with hold | hback
    · left
      apply knows_iff.mpr
      left
      cases previous <;> exact hold
    · exact Or.inr (Or.inr hback)
  · simp only [Rows.revert, grants_foldl_restoreMember] at hlookup
    cases previous with
    | none =>
      have hold : rows.grants.lookup other = some row := by
        by_cases heq : other = device
        · rw [heq, Rows.deleteGrant, AList.lookup_erase] at hlookup
          cases hlookup
        · rw [Rows.deleteGrant, AList.lookup_erase_ne heq] at hlookup
          exact hlookup
      exact Or.inl (knows_of_names hold hnames)
    | some restored =>
      rcases writeGrant_lookup hlookup with ⟨_, hrow⟩ | ⟨_, hold⟩
      · rw [hrow] at hnames
        exact Or.inr (Or.inl ⟨restored, rfl, hnames⟩)
      · exact Or.inl (knows_of_names hold hnames)

end Rows

end DeviceGrants
end Wildbloom
