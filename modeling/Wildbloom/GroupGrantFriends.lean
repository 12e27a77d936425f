import Wildbloom.GroupGrantTables

/-!
# Group keys in the core's friend set

`friendOf` is the friend grant that the tables ask of the core for a device.  A
friend list carries such grants when it has exactly one grant for each device
that has one.
-/

namespace Wildbloom
namespace GroupGrants

open KeyedTables

variable {Key : Type} [DecidableEq Key] {rows : GroupRows Key} {friends : List (FriendGrant Key)}
  {event : GroupEvent Key} {terms : Terms Key} {plan : Plan Key} {grant : FriendGrant Key}

def GroupRows.friendOf (rows : GroupRows Key) (device : Key) : Option (FriendGrant Key) :=
  (rows.keys.lookup device).bind (friendGrant device)

def Carries (friends : List (FriendGrant Key)) (wanted : Key → Option (FriendGrant Key)) : Prop :=
  ∀ device grant, wanted device = some grant →
    friends.filter (fun found => found.pubkey = device) = [grant]

omit [DecidableEq Key] in
theorem pubkey_friendGrant {device : Key} {key : GroupKey Key}
    (hgrant : friendGrant device key = some grant) : grant.pubkey = device := by
  obtain ⟨limit, _, rfl⟩ := Option.map_eq_some_iff.mp hgrant
  rfl

theorem filter_friendGrant_cons (device key : Key) (groupKey : GroupKey Key)
    (entries : List (Sigma fun _ : Key => GroupKey Key)) :
    ((⟨key, groupKey⟩ :: entries).filterMap fun entry =>
        friendGrant entry.1 entry.2).filter (fun found => found.pubkey = device) =
      (if key = device then (friendGrant key groupKey).toList else []) ++
        (entries.filterMap fun entry => friendGrant entry.1 entry.2).filter
          (fun found => found.pubkey = device) := by
  cases hgrant : friendGrant key groupKey with
  | none => simp [hgrant]
  | some grant =>
    have hpubkey := pubkey_friendGrant hgrant
    simp only [List.filterMap_cons, hgrant, List.filter_cons, hpubkey]
    by_cases hkey : key = device <;> simp [hkey]

theorem filter_filterMap_friendGrant {entries : List (Sigma fun _ : Key => GroupKey Key)}
    (hnodup : entries.NodupKeys) (device : Key) :
    (entries.filterMap fun entry => friendGrant entry.1 entry.2).filter
        (fun found => found.pubkey = device) =
      ((entries.dlookup device).bind (friendGrant device)).toList := by
  induction entries with
  | nil => rfl
  | cons entry entries ih =>
    obtain ⟨key, groupKey⟩ := entry
    have hrest := ih (List.nodupKeys_of_nodupKeys_cons hnodup)
    rw [filter_friendGrant_cons, hrest]
    by_cases hkey : key = device
    · subst hkey
      have hnone : entries.dlookup key = none :=
        List.dlookup_eq_none.mpr (List.notMem_keys_of_nodupKeys_cons hnodup)
      simp [hnone]
    · rw [if_neg hkey, List.nil_append, List.dlookup_cons_ne _ _ (Ne.symm hkey)]

theorem filter_groupFriendGrants (device : Key) :
    rows.groupFriendGrants.filter (fun found => found.pubkey = device) =
      (rows.friendOf device).toList :=
  filter_filterMap_friendGrant rows.keys.nodupKeys device

/-- Friends that name no device with a grant of the tables do not disturb. -/
theorem filter_others {wanted : Key → Option (FriendGrant Key)} {device : Key}
    (hothers : ∀ found ∈ friends, wanted found.pubkey = none)
    (hgrant : wanted device = some grant) :
    friends.filter (fun found => found.pubkey = device) = [] := by
  rw [List.filter_eq_nil_iff]
  intro found hfound
  simp only [decide_eq_true_eq]
  rintro rfl
  rw [hothers found hfound] at hgrant
  cases hgrant

theorem carries_groupFriendGrants (hothers : ∀ found ∈ friends, rows.friendOf found.pubkey = none) :
    Carries (friends ++ rows.groupFriendGrants) rows.friendOf := by
  intro device grant hgrant
  rw [List.filter_append, filter_others hothers hgrant, filter_groupFriendGrants, hgrant]
  rfl

theorem filter_projectedFriendGrants (change : Key × GroupKey Key) (device : Key) :
    (rows.projectedFriendGrants change).filter (fun found => found.pubkey = device) =
      (Function.update rows.friendOf change.1 (friendGrant change.1 change.2) device).toList := by
  rw [GroupRows.projectedFriendGrants, List.filter_append, List.filter_comm,
    filter_groupFriendGrants]
  by_cases hdevice : device = change.1
  · subst hdevice
    rw [Function.update_self]
    have hdropped : ((rows.friendOf change.1).toList.filter
        fun found => decide (found.pubkey ≠ change.1)) = [] := by
      rw [List.filter_eq_nil_iff]
      intro found hfound
      simp only [Option.mem_toList, GroupRows.friendOf, Option.bind_eq_some_iff] at hfound
      obtain ⟨key, _, hkey⟩ := hfound
      simp [pubkey_friendGrant hkey]
    rw [hdropped, List.nil_append, List.filter_eq_self]
    intro found hfound
    simpa using pubkey_friendGrant (Option.mem_toList.mp hfound)
  · rw [Function.update_of_ne hdevice]
    have hkept : ((rows.friendOf device).toList.filter
        fun found => decide (found.pubkey ≠ change.1)) = (rows.friendOf device).toList := by
      rw [List.filter_eq_self]
      intro found hfound
      simp only [Option.mem_toList, GroupRows.friendOf, Option.bind_eq_some_iff] at hfound
      obtain ⟨key, _, hkey⟩ := hfound
      simpa [pubkey_friendGrant hkey] using hdevice
    have hnone : ((friendGrant change.1 change.2).toList.filter
        fun found => decide (found.pubkey = device)) = [] := by
      rw [List.filter_eq_nil_iff]
      intro found hfound
      simpa [pubkey_friendGrant (Option.mem_toList.mp hfound)] using Ne.symm hdevice
    rw [hkept, hnone, List.append_nil]

theorem carries_projectedFriendGrants {change : Key × GroupKey Key}
    (hothers : ∀ found ∈ friends, Function.update rows.friendOf change.1
      (friendGrant change.1 change.2) found.pubkey = none) :
    Carries (friends ++ rows.projectedFriendGrants change) (Function.update rows.friendOf change.1
        (friendGrant change.1 change.2)) := by
  intro device grant hgrant
  rw [List.filter_append, filter_others hothers hgrant, filter_projectedFriendGrants, hgrant]
  rfl

/-! ## What an event asks -/

def GroupEvent.asks (event : GroupEvent Key) : Option (FriendGrant Key) :=
  match event.body with
  | .reset _ _ => none
  | .grant terms =>
    if terms.revoked then none
    else
      terms.bytes.map fun limit =>
        { pubkey := terms.device
          byteLimit := limit
          grantId := .group event.keeper terms.room
          issuer := some event.keeper }

def withAsked (wanted : Key → Option (FriendGrant Key))
    (grant : FriendGrant Key) : Key → Option (FriendGrant Key) :=
  Function.update wanted grant.pubkey (some grant)

omit [DecidableEq Key] in
theorem asks_eq_some (hbody : event.body = .grant terms) (hasks : event.asks = some grant) :
    terms.revoked = false ∧ grant.pubkey = terms.device ∧
      ∀ known, friendGrant terms.device (groupKey known event terms) = some grant := by
  simp only [GroupEvent.asks, hbody] at hasks
  split_ifs at hasks with hrevoked
  simp only [Option.map_eq_some_iff] at hasks
  obtain ⟨limit, hlimit, rfl⟩ := hasks
  refine ⟨by simpa using hrevoked, rfl, fun known => ?_⟩
  simp [friendGrant, groupKey, hlimit]

variable {enrolled authority : Key → Bool} {now : ℕ}

theorem friendOf_write_grantPlan (hfits : Fits enrolled authority rows event terms now) :
    (rows.write (grantPlan rows event terms)).friendOf =
      if terms.revoked = false then
        Function.update rows.friendOf terms.device (friendGrant terms.device
            (groupKey (rows.keys.lookup terms.device) event terms))
      else rows.friendOf := by
  have hgroup := (groupKeyConflict_eq_false.mp hfits.free).2.2.1
  funext device
  rw [GroupRows.friendOf, lookup_keys_write rfl hgroup]
  by_cases hrevoked : terms.revoked = false
  · by_cases hdevice : device = terms.device
    · simp [hrevoked, hdevice]
    · simp [hrevoked, hdevice, GroupRows.friendOf]
  · simp [hrevoked, GroupRows.friendOf]

/-- A written grant that asks for a ceiling has it in the tables. -/
theorem friendOf_write_of_asks (hdecides : Decides enrolled authority rows event now plan)
    (hasks : event.asks = some grant) (hwrites : plan.writesNothing = false) :
    (rows.write plan).friendOf = withAsked rows.friendOf grant := by
  cases hdecides with
  | held => cases hwrites
  | reset room server hbody => simp [GroupEvent.asks, hbody] at hasks
  | grant terms hbody hfits =>
    obtain ⟨hrevoked, hpubkey, hgrant⟩ := asks_eq_some hbody hasks
    rw [friendOf_write_grantPlan hfits, if_pos hrevoked, hgrant, withAsked, hpubkey]

end GroupGrants
end Wildbloom
