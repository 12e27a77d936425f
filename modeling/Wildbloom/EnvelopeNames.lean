import Wildbloom.EnvelopeModel
import Mathlib.Tactic

/-!
# Names and media types that are already clean

What `sanitiseName` and `normaliseMediaType` return, they return unchanged when
they are applied again.  A name is clean when none of the steps would change
it, and every step's result stays clean under the later ones.
-/

namespace Wildbloom
namespace Envelope

open Slices

variable {InputKey Key : Type}

/-- What names need of the normal form. -/
structure NfcLaws (rules : Rules InputKey Key) : Prop where
  nfc_nfc : ∀ text, rules.nfc (rules.nfc text) = rules.nfc text
  nfc_infix : ∀ text part, rules.nfc text = text → part <:+: text → rules.nfc part = part
  /-- An underscore takes part in no composition. -/
  nfc_replace : ∀ text, rules.nfc text = text →
    rules.nfc (text.map fun c => if isReserved c then '_' else c) =
      text.map fun c => if isReserved c then '_' else c
  /-- Neither separators nor controls appear. -/
  nfc_clean : ∀ text c, c ∈ rules.nfc text → isSeparator c = true ∨ isControl c = true → c ∈ text
  nfc_blobBin : rules.nfc blobBin = blobBin

/-- What is used of the normal form and of lower-casing. -/
structure TextLaws (rules : Rules InputKey Key) : Prop extends NfcLaws rules where
  lowercase_lowercase : ∀ text, rules.lowercase (rules.lowercase text) = rules.lowercase text
  lowercase_ne_nil : ∀ text, text ≠ [] → rules.lowercase text ≠ []
  lowercase_octetStream : rules.lowercase octetStream = octetStream

structure Clean (rules : Rules InputKey Key) (name : Text) : Prop where
  ne_nil : name ≠ []
  separator : ∀ c ∈ name, isSeparator c = false
  control : ∀ c ∈ name, isControl c = false
  nfc : rules.nfc name = name
  reserved : ∀ c ∈ name, isReserved c = false
  first : ∀ c ∈ name.head?, (decide (c = '.') || isJsWhitespace c) = false
  last : ∀ c ∈ name.getLast?, isJsWhitespace c = false

section Names

variable {rules : Rules InputKey Key} {name : Text}

theorem Clean.sanitiseName_eq (hclean : Clean rules name)
    (hshort : utf16Count name ≤ 180) : sanitiseName rules name = name := by
  have hleaf : name.rtakeWhile (fun c => !isSeparator c) = name := by
    rw [List.rtakeWhile_eq_self_iff]
    intro c hc
    simp [hclean.separator c hc]
  have hcontrols : name.filter (fun c => !isControl c) = name := by
    rw [List.filter_eq_self]
    intro c hc
    simp [hclean.control c hc]
  have hmapped : (name.map fun c => if isReserved c then '_' else c) = name := by
    conv_rhs => rw [← List.map_id name]
    apply List.map_congr_left
    intro c hc
    simp [hclean.reserved c hc]
  have htrimmed : (name.dropWhile fun c =>
      decide (c = '.') || isJsWhitespace c) = name := by
    cases hname : name with
    | nil => rfl
    | cons c rest =>
      have hfirst := hclean.first c (by rw [hname]; rfl)
      exact List.dropWhile_cons_of_neg (by simp only [hfirst]; decide)
  have hend : name.rdropWhile isJsWhitespace = name := by
    rw [List.rdropWhile_eq_self_iff]
    intro hne hspace
    rw [hclean.last _ (List.getLast?_eq_some_getLast hne)] at hspace
    cases hspace
  unfold sanitiseName
  simp only [hleaf, hcontrols, hclean.nfc, hmapped, htrimmed, hend,
    if_neg hclean.ne_nil, if_pos hshort]

theorem Clean.of_isPrefix (hlaws : NfcLaws rules) (hclean : Clean rules name)
    {start : Text} (hstart : start <+: name) (hne : start ≠ [])
    (hlast : ∀ c ∈ start.getLast?, isJsWhitespace c = false) : Clean rules start where
  ne_nil := hne
  separator c hc := hclean.separator c (hstart.mem hc)
  control c hc := hclean.control c (hstart.mem hc)
  nfc := hlaws.nfc_infix name start hclean.nfc hstart.isInfix
  reserved c hc := hclean.reserved c (hstart.mem hc)
  first := by
    intro c hc
    apply hclean.first
    obtain ⟨rest, rfl⟩ := hstart
    rwa [List.head?_append_of_ne_nil _ hne]
  last := hlast

theorem getLast_rdropWhile (text : Text) : ∀ c ∈ (text.rdropWhile isJsWhitespace).getLast?,
      isJsWhitespace c = false := by
  intro c hc
  have hne : text.rdropWhile isJsWhitespace ≠ [] := by
    rintro hnil
    rw [hnil] at hc
    cases hc
  have hnot := List.rdropWhile_last_not isJsWhitespace text hne
  rw [List.getLast?_eq_some_getLast hne, Option.mem_some_iff] at hc
  subst hc
  simpa using hnot

theorem takeUnits_isPrefix (units : ℕ) (text : Text) : takeUnits units text <+: text := by
  induction text generalizing units with
  | nil => simp [takeUnits]
  | cons c rest ih =>
    rw [takeUnits]
    split
    · exact (List.prefix_cons_inj c).mpr (ih _)
    · exact List.nil_prefix

theorem utf16Count_takeUnits (units : ℕ) (text : Text) :
    utf16Count (takeUnits units text) ≤ units := by
  induction text generalizing units with
  | nil => simp [takeUnits, utf16Count]
  | cons c rest ih =>
    rw [takeUnits]
    split
    next hfits =>
      have hrest := ih (units - lenUtf16 c)
      simp only [utf16Count, List.map_cons, List.sum_cons] at hrest ⊢
      omega
    next => simp [utf16Count]

theorem utf16Count_le_of_isPrefix {start text : Text} (h : start <+: text) :
    utf16Count start ≤ utf16Count text := by
  obtain ⟨rest, rfl⟩ := h
  simp [utf16Count]

section

variable (hlaws : NfcLaws rules)
include hlaws

theorem clean_blobBin : Clean rules blobBin where
  ne_nil := by simp [blobBin]
  separator := by simp [blobBin, isSeparator]
  control := by simp [blobBin, isControl]
  nfc := hlaws.nfc_blobBin
  reserved := by simp [blobBin, isReserved]
  first := by simp [blobBin, isJsWhitespace]
  last := by simp [blobBin, isJsWhitespace]

theorem clean_trimmed (value : Text) {trimmed : Text} (htrimmed : trimmed = (((rules.nfc
      ((value.rtakeWhile fun c => !isSeparator c).filter
        fun c => !isControl c)).map fun c =>
          if isReserved c then '_' else c).dropWhile fun c =>
            decide (c = '.') || isJsWhitespace c).rdropWhile isJsWhitespace) (hne : trimmed ≠ []) :
    Clean rules trimmed := by
  generalize hleaf : ((value.rtakeWhile fun c => !isSeparator c).filter
    fun c => !isControl c) = leaf at htrimmed
  generalize hmapped : ((rules.nfc leaf).map fun c =>
    if isReserved c then '_' else c) = mapped at htrimmed
  generalize hdropped : (mapped.dropWhile fun c =>
    decide (c = '.') || isJsWhitespace c) = dropped at htrimmed
  have hclean : ∀ c ∈ leaf, isSeparator c = false ∧ isControl c = false := by
    intro c hc
    rw [← hleaf, List.mem_filter] at hc
    have hseparator := List.mem_rtakeWhile_imp hc.1
    simp only [Bool.not_eq_eq_eq_not, Bool.not_true] at hseparator hc
    exact ⟨hseparator, hc.2⟩
  -- the characters of the mapped text are underscores or pass all tests
  have hchars : ∀ c ∈ mapped, isSeparator c = false ∧ isControl c = false ∧
      isReserved c = false := by
    intro c hc
    rw [← hmapped, List.mem_map] at hc
    obtain ⟨d, hd, rfl⟩ := hc
    split
    next => decide
    next hfree =>
      refine ⟨?_, ?_, by simpa using hfree⟩
      · by_contra hsep
        have hsep : isSeparator d = true := by simpa using hsep
        have hmem := hlaws.nfc_clean leaf d hd (.inl hsep)
        rw [(hclean d hmem).1] at hsep
        cases hsep
      · by_contra hcontrol
        have hcontrol : isControl d = true := by simpa using hcontrol
        have hmem := hlaws.nfc_clean leaf d hd (.inr hcontrol)
        rw [(hclean d hmem).2] at hcontrol
        cases hcontrol
  have hstart : trimmed <+: dropped := by
    rw [htrimmed]
    exact List.rdropWhile_prefix _ _
  have hinner : trimmed <:+: mapped := by
    refine hstart.isInfix.trans ?_
    rw [← hdropped]
    exact (List.dropWhile_suffix _).isInfix
  refine ⟨hne, ?_, ?_, ?_, ?_, ?_, ?_⟩
  · exact fun c hc => (hchars c (hinner.mem hc)).1
  · exact fun c hc => (hchars c (hinner.mem hc)).2.1
  · refine hlaws.nfc_infix mapped trimmed ?_ hinner
    rw [← hmapped]
    exact hlaws.nfc_replace _ (hlaws.nfc_nfc leaf)
  · exact fun c hc => (hchars c (hinner.mem hc)).2.2
  · intro c hc
    obtain ⟨rest, hrest⟩ := hstart
    have hhead : dropped.head? = some c := by
      rw [← hrest, List.head?_append_of_ne_nil _ hne]
      exact hc
    have hnot := List.head?_dropWhile_not (fun c =>
      decide (c = '.') || isJsWhitespace c) mapped
    rw [hdropped, hhead] at hnot
    simpa using hnot
  · rw [htrimmed]
    exact getLast_rdropWhile dropped

theorem sanitiseName_clean (value : Text) :
    Clean rules (sanitiseName rules value) ∧ utf16Count (sanitiseName rules value) ≤ 180 := by
  unfold sanitiseName
  dsimp only
  generalize htrimmed : (((rules.nfc ((value.rtakeWhile fun c => !isSeparator c).filter
        fun c => !isControl c)).map fun c =>
          if isReserved c then '_' else c).dropWhile fun c =>
            decide (c = '.') || isJsWhitespace c).rdropWhile isJsWhitespace =
      trimmed
  have hfallback : Clean rules (if trimmed = [] then blobBin else trimmed) := by
    split
    next => exact clean_blobBin hlaws
    next hne => exact clean_trimmed hlaws value htrimmed.symm hne
  generalize (if trimmed = [] then blobBin else trimmed) = fallback at hfallback
  split
  next hshort => exact ⟨hfallback, hshort⟩
  next hlong =>
    generalize hcut : (takeUnits 180 fallback).rdropWhile isJsWhitespace = cut
    have hstart : cut <+: takeUnits 180 fallback := by
      rw [← hcut]
      exact List.rdropWhile_prefix _ _
    have hne : cut ≠ [] := by
      -- the first character is kept: it fits and is no whitespace
      cases hname : fallback with
      | nil => exact absurd hname hfallback.ne_nil
      | cons c rest =>
        have hfirst := hfallback.first c (by rw [hname]; rfl)
        have hunits : lenUtf16 c ≤ 180 := by
          unfold lenUtf16
          split <;> norm_num
        rw [← hcut, Ne, List.rdropWhile_eq_nil_iff, hname, takeUnits, if_pos hunits]
        intro hall
        have hspace := hall c List.mem_cons_self
        rw [hspace, Bool.or_true] at hfirst
        cases hfirst
    refine ⟨hfallback.of_isPrefix hlaws (hstart.trans (takeUnits_isPrefix 180 fallback)) hne ?_, ?_⟩
    · rw [← hcut]
      exact getLast_rdropWhile _
    · exact (utf16Count_le_of_isPrefix hstart).trans (utf16Count_takeUnits 180 fallback)

theorem sanitiseName_sanitiseName (value : Text) :
    sanitiseName rules (sanitiseName rules value) = sanitiseName rules value :=
  have hclean := sanitiseName_clean hlaws value
  hclean.1.sanitiseName_eq hclean.2

end

theorem normaliseMediaType_of_ok (hlaws : TextLaws rules) {value lowered : Text}
    (hok : normaliseMediaType rules value = .ok lowered) :
    normaliseMediaType rules lowered = .ok lowered := by
  unfold normaliseMediaType at hok ⊢
  dsimp only at hok ⊢
  generalize hlow : (if value = [] then octetStream else
    rules.lowercase value) = low at hok
  have hagain : (if low = [] then octetStream else rules.lowercase low) = low := by
    by_cases hvalue : value = []
    · rw [← hlow, if_pos hvalue, if_neg (by decide), hlaws.lowercase_octetStream]
    · rw [← hlow, if_neg hvalue, if_neg (hlaws.lowercase_ne_nil value hvalue),
        hlaws.lowercase_lowercase]
  obtain ⟨hfits, hsame⟩ : ¬ (255 < utf16Count low ∨ low.any isControl = true) ∧ low = lowered := by
    split at hok
    · cases hok
    next hfits => exact ⟨hfits, Except.ok.inj hok⟩
  rw [← hsame, hagain, if_neg hfits]

end Names

/-- Every name that comes out is one that goes through unchanged. -/
theorem sanitised_names_are_canonical (rules : Rules InputKey Key) (hlaws : NfcLaws rules)
    (value : Text) :
    sanitiseName rules (sanitiseName rules value) = sanitiseName rules value ∧
    sanitiseName rules value ≠ [] ∧ utf16Count (sanitiseName rules value) ≤ 180 ∧
    (∀ c ∈ sanitiseName rules value,
      isSeparator c = false ∧ isControl c = false ∧ isReserved c = false) ∧
    (∀ c ∈ (sanitiseName rules value).head?, c ≠ '.' ∧ isJsWhitespace c = false) ∧
    ∀ c ∈ (sanitiseName rules value).getLast?, isJsWhitespace c = false := by
  obtain ⟨hclean, hshort⟩ := sanitiseName_clean hlaws value
  refine ⟨hclean.sanitiseName_eq hshort, hclean.ne_nil, hshort, ?_, ?_, hclean.last⟩
  · exact fun c hc => ⟨hclean.separator c hc, hclean.control c hc, hclean.reserved c hc⟩
  · intro c hc
    have hfirst := hclean.first c hc
    rw [Bool.or_eq_false_iff, decide_eq_false_iff_not] at hfirst
    exact hfirst

def identityRules : Rules Unit Unit where
  nfc := id
  lowercase := id
  json := fun _ => []
  parseJson := fun _ => none
  utf8 := fun _ => true
  deriveEnvelopeKey := fun _ _ => ()
  encryptDetached := fun _ _ _ data => (data, [])
  decryptDetached := fun _ _ _ data _ => some data
  sha256 := id

theorem sanitised_names_are_canonical_of_dotted :
    sanitiseName identityRules "a/..b?\t ".toList = ['b', '_'] ∧
    sanitiseName identityRules (sanitiseName identityRules "a/..b?\t ".toList) = ['b', '_'] := by
  have hname : sanitiseName identityRules "a/..b?\t ".toList = ['b', '_'] := by decide
  have hlaws : NfcLaws identityRules :=
    ⟨fun _ => rfl, fun _ _ _ _ => rfl, fun _ _ => rfl, fun _ _ h _ => h, rfl⟩
  exact ⟨hname, (sanitised_names_are_canonical identityRules hlaws _).1.trans hname⟩

end Envelope
end Wildbloom
