/-
# Fat32.NameMatch -- the two ways to compare a name with an entry

Open, write and delete pack a text into eleven bytes and compare bytes
(`fat32_make_name83`); path navigation unpacks the bytes of an entry and compares texts without
regard to case (`fat32_name_match`).  For a text without blanks the two agree on every packed
entry, but for one kind of text (`matches_made_iff`): a final dot is dropped by packing and
kept by the comparison, so `a.` is packed like `a` and does not match its entry.
-/
import Mathlib.Data.List.TakeWhile
import XosKernel.Fat32.CurrentPath

namespace XosKernel.Fat32

open XosKernel.Theory

set_option autoImplicit false

/-- A text of characters from 1 to 126, neither slash nor blank. -/
structure Plain (text : List UInt8) : Prop where
  nonempty : text ≠ []
  noSlash : slash ∉ text
  noBlank : space ∉ text
  noNul : (0 : UInt8) ∉ text
  low : ∀ c ∈ text, c.toNat ≤ 126

/-- A text whose only dot is its last character, behind at most eight others. -/
def EndsInDot (text : List UInt8) : Prop :=
  ∃ base, text = base ++ [dot] ∧ dot ∉ base ∧ base.length ≤ 8

theorem Plain.undeleted {text : List UInt8} (plain : Plain text) : (0xE5 : UInt8) ∉ text := by
  intro member
  have := plain.low _ member
  exact absurd this (by decide)

theorem Plain.take {text : List UInt8} (plain : Plain text) (n : Nat) (positive : 0 < n) :
    Plain (text.take n) where
  nonempty := by
    have some := plain.nonempty
    simpa [List.take_eq_nil_iff, some] using Nat.ne_of_gt positive
  noSlash := fun member => plain.noSlash (List.mem_of_mem_take member)
  noBlank := fun member => plain.noBlank (List.mem_of_mem_take member)
  noNul := fun member => plain.noNul (List.mem_of_mem_take member)
  low := fun c member => plain.low c (List.mem_of_mem_take member)

/-! ## Case -/

theorem upper_upper (c : UInt8) : upper (upper c) = upper c := by
  apply UInt8.toNat_inj.mp
  rw [toNat_upper, toNat_upper c]
  by_cases letter : 0x61 ≤ c.toNat ∧ c.toNat ≤ 0x7A
  · rw [if_pos letter, if_neg (by omega)]
  · rw [if_neg letter, if_neg letter]

theorem map_upper_upper (text : List UInt8) : (text.map upper).map upper = text.map upper := by
  rw [List.map_map]
  exact List.map_congr_left fun c _ => upper_upper c

/-- A character that is no letter comes from itself only. -/
theorem mem_map_upper_iff {b : UInt8} (other : b.toNat < 0x41 ∨ 0x7A < b.toNat)
    {text : List UInt8} : b ∈ text.map upper ↔ b ∈ text := by
  have fixed : upper b = b := by
    apply UInt8.toNat_inj.mp
    rw [toNat_upper, if_neg (by omega)]
  rw [List.mem_map]
  constructor
  · rintro ⟨c, member, same⟩
    rwa [eq_of_upper_eq same (by omega)] at member
  · exact fun member => ⟨b, member, fixed⟩

/-! ## Packing -/

/-- Behind the dot, the loop takes up to three characters and no further dot. -/
theorem splitName_ext : ∀ (name base ext : List UInt8) (p : List UInt8 × List UInt8),
    ext.length ≤ 3 → slash ∉ name →
    (splitName name base ext true = some p ↔
      dot ∉ name ∧ (ext ++ name).length ≤ 3 ∧ p = (base, ext ++ name))
  | [], base, ext, p, short, _ => by
      simp [splitName, short, eq_comm]
  | c :: name, base, ext, p, short, noSlash => by
      rw [List.mem_cons, not_or] at noSlash
      unfold splitName
      rw [if_neg (Ne.symm noSlash.1)]
      by_cases isDot : c = dot
      · simp [isDot]
      rw [if_neg isDot, if_neg (by decide)]
      have step : ext ++ c :: name = ext ++ [c] ++ name := by simp
      rw [step]
      by_cases full : 3 ≤ ext.length
      · rw [if_pos full]
        simp only [reduceCtorEq, false_iff, not_and, List.length_append, List.length_singleton]
        omega
      · rw [if_neg full, splitName_ext name base (ext ++ [c]) p (by simp; omega) noSlash.2]
        simp [Ne.symm isDot]

/-- The character loop splits a text without slashes at its only dot, or not at all. -/
theorem splitName_base_iff : ∀ (name base : List UInt8) (p : List UInt8 × List UInt8),
    base.length ≤ 8 → slash ∉ name →
    (splitName name base [] false = some p ↔ p.1.length ≤ 8 ∧ p.2.length ≤ 3 ∧ dot ∉ p.2 ∧
      ∃ front, p.1 = base ++ front ∧ dot ∉ front ∧
        (name = front ∧ p.2 = [] ∨ name = front ++ dot :: p.2))
  | [], base, p, short, _ => by
      obtain ⟨b, x⟩ := p
      simp only [splitName, Option.some.injEq, Prod.mk.injEq]
      constructor
      · rintro ⟨rfl, rfl⟩
        exact ⟨short, by simp, by simp, [], by simp, by simp, .inl ⟨rfl, rfl⟩⟩
      · rintro ⟨-, -, -, front, rfl, -, ⟨rfl, rfl⟩ | split⟩
        · simp
        · simp at split
  | c :: name, base, p, short, noSlash => by
      obtain ⟨b, x⟩ := p
      rw [List.mem_cons, not_or] at noSlash
      unfold splitName
      rw [if_neg (Ne.symm noSlash.1)]
      by_cases isDot : c = dot
      · subst isDot
        rw [if_pos rfl, if_neg (by decide), splitName_ext name base [] (b, x) (by simp) noSlash.2]
        simp only [List.nil_append, Prod.mk.injEq]
        constructor
        · rintro ⟨noDot, fits, rfl, rfl⟩
          exact ⟨short, fits, noDot, [], by simp, by simp, .inr rfl⟩
        · rintro ⟨fits, fits', noDot, front, rfl, dots, ⟨rfl, rfl⟩ | split⟩
          · exact absurd List.mem_cons_self dots
          · cases front with
            | nil =>
                obtain ⟨-, rfl⟩ := List.cons.inj split
                exact ⟨noDot, fits', by simp, rfl⟩
            | cons y front =>
                obtain ⟨rfl, -⟩ := List.cons.inj split
                exact absurd List.mem_cons_self dots
      · rw [if_neg isDot, if_pos (by decide)]
        by_cases full : 8 ≤ base.length
        · rw [if_pos full]
          simp only [reduceCtorEq, false_iff]
          rintro ⟨fits, -, -, front, rfl, -, ⟨rfl, -⟩ | split⟩
          · simp at fits
            omega
          · cases front with
            | nil => exact isDot (List.cons.inj split).1
            | cons y front =>
                simp at fits
                omega
        · rw [if_neg full, splitName_base_iff name (base ++ [c]) (b, x) (by simp; omega) noSlash.2]
          simp only
          constructor
          · rintro ⟨fits, fits', noDot, front, rfl, dots, how⟩
            refine ⟨fits, fits', noDot, c :: front, by simp, ?_, ?_⟩
            · rw [List.mem_cons, not_or]
              exact ⟨Ne.symm isDot, dots⟩
            · rcases how with ⟨rfl, rfl⟩ | rfl
              · exact .inl ⟨rfl, rfl⟩
              · exact .inr rfl
          · rintro ⟨fits, fits', noDot, front, rfl, dots, how⟩
            cases front with
            | nil =>
                rcases how with ⟨empty, -⟩ | split
                · cases empty
                · exact absurd (List.cons.inj split).1 isDot
            | cons y front =>
                have same : c = y := by
                  rcases how with ⟨split, -⟩ | split
                  · exact (List.cons.inj split).1
                  · exact (List.cons.inj split).1
                subst same
                refine ⟨fits, fits', noDot, front, by simp, ?_, ?_⟩
                · exact fun member => dots (List.mem_cons_of_mem _ member)
                · rcases how with ⟨split, none⟩ | split
                  · exact .inl ⟨(List.cons.inj split).2, none⟩
                  · exact .inr (List.cons.inj split).2

/-- A text is a base and an extension, with a dot between them, or a base alone. -/
structure Packs (text base ext : List UInt8) : Prop where
  base_le : base.length ≤ 8
  ext_le : ext.length ≤ 3
  base_noDot : dot ∉ base
  ext_noDot : dot ∉ ext
  split : text = base ∧ ext = [] ∨ text = base ++ dot :: ext

theorem makeName83_eq_some_iff {text : List UInt8} (nonempty : text ≠ []) (noSlash : slash ∉ text)
    {name : Name83} :
    makeName83 text = some name ↔ ∃ base ext, Packs text base ext ∧ name = packName base ext := by
  have unfolded : makeName83 text = (splitName text [] [] false).map fun p => packName p.1 p.2 := by
    unfold makeName83
    rw [skipSlash_of_not_mem noSlash]
    cases text with
    | nil => exact absurd rfl nonempty
    | cons c rest => rfl
  rw [unfolded, Option.map_eq_some_iff]
  constructor
  · rintro ⟨⟨base, ext⟩, split, rfl⟩
    obtain ⟨fits, fits', noDot, front, rfl, dots, how⟩ :=
      (splitName_base_iff text [] _ (by simp) noSlash).mp split
    exact ⟨_, ext, ⟨fits, fits', dots, noDot, how⟩, rfl⟩
  · rintro ⟨base, ext, packs, rfl⟩
    refine ⟨(base, ext), ?_, rfl⟩
    exact (splitName_base_iff text [] _ (by simp) noSlash).mpr
      ⟨packs.base_le, packs.ext_le, packs.ext_noDot, base, rfl, packs.base_noDot, packs.split⟩

theorem length_le_of_made {text : List UInt8} {name : Name83} (plain : Plain text)
    (made : makeName83 text = some name) : text.length ≤ 12 := by
  obtain ⟨base, ext, packs, -⟩ := (makeName83_eq_some_iff plain.nonempty plain.noSlash).mp made
  have bases := packs.base_le
  have exts := packs.ext_le
  rcases packs.split with ⟨rfl, -⟩ | rfl
  · omega
  · rw [List.length_append, List.length_cons]
    omega

/-- The component buffer of path navigation holds every text that can be packed. -/
theorem take_of_made {text : List UInt8} {name : Name83} (plain : Plain text)
    (made : makeName83 (text.take 255) = some name) : text.take 255 = text := by
  have short := length_le_of_made (plain.take 255 (by decide)) made
  rw [List.length_take] at short
  exact List.take_of_length_le (by omega)

/-! ## Fields -/

theorem padField_eq {width : Nat} {field : List UInt8} (fits : field.length ≤ width) :
    padField width field = field.map upper ++ List.replicate (width - field.length) space := by
  apply List.ext_getElem
  · simp [padField]
    omega
  intro i low high
  simp only [padField, List.getElem_map, List.getElem_range]
  by_cases inside : i < field.length
  · rw [List.getElem_append_left (by simpa using inside), List.getD_eq_getElem?_getD,
      List.getElem?_eq_getElem (by simpa using inside)]
    rfl
  · rw [List.getElem_append_right (by simpa using inside), List.getElem_replicate,
      List.getD_eq_getElem?_getD, List.getElem?_eq_none (by simp; omega)]
    rfl

theorem trimField_padField {width : Nat} {field : List UInt8} (fits : field.length ≤ width)
    (noBlank : space ∉ field) : trimField (padField width field) = field.map upper := by
  have kept : space ∉ field.map upper := by rwa [mem_map_upper_iff (by decide)]
  unfold trimField
  rw [padField_eq fits, List.takeWhile_append_of_pos fun c member => by
    simpa using fun blank : c = space => kept (blank ▸ member)]
  cases width - field.length with
  | zero => simp
  | succ n => simp [List.replicate_succ]

theorem take_packName (base ext : List UInt8) :
    (packName base ext).1.take 8 = padField 8 base := by
  have width : (padField 8 base).length = 8 := by simp [padField]
  exact List.take_left' width

theorem drop_packName (base ext : List UInt8) :
    (packName base ext).1.drop 8 = padField 3 ext := by
  have width : (padField 8 base).length = 8 := by simp [padField]
  exact List.drop_left' width

section Fields

variable {base ext : List UInt8} (base_le : base.length ≤ 8) (ext_le : ext.length ≤ 3)
  (base_noBlank : space ∉ base) (ext_noBlank : space ∉ ext)
include base_le ext_le base_noBlank ext_noBlank

/-- Fields are read back from a packed name. -/
theorem packName_inj {base' ext' : List UInt8} (base_le' : base'.length ≤ 8)
    (ext_le' : ext'.length ≤ 3) (base_noBlank' : space ∉ base') (ext_noBlank' : space ∉ ext')
    (same : packName base ext = packName base' ext') :
    base.map upper = base'.map upper ∧ ext.map upper = ext'.map upper := by
  have bases : padField 8 base = padField 8 base' := by
    rw [← take_packName base ext, same, take_packName]
  have exts : padField 3 ext = padField 3 ext' := by
    rw [← drop_packName base ext, same, drop_packName]
  have base_eq := congrArg trimField bases
  have ext_eq := congrArg trimField exts
  rw [trimField_padField base_le base_noBlank, trimField_padField base_le' base_noBlank'] at base_eq
  rw [trimField_padField ext_le ext_noBlank, trimField_padField ext_le' ext_noBlank'] at ext_eq
  exact ⟨base_eq, ext_eq⟩

/-- The text of a packed name: the dot stands only before an extension. -/
theorem formatName_packName {e : Dirent} (name : e.name = packName base ext) :
    formatName e = base.map upper ++ if ext = [] then [] else dot :: ext.map upper := by
  unfold formatName
  simp only [name, take_packName, drop_packName,
    trimField_padField base_le base_noBlank, trimField_padField ext_le ext_noBlank]
  rw [padField_eq ext_le]
  cases ext with
  | nil => simp
  | cons c rest =>
      have first : upper c ≠ space := by
        intro blank
        have kept : space ∉ (c :: rest).map upper := by rwa [mem_map_upper_iff (by decide)]
        exact kept (by rw [List.map_cons, blank]; exact List.mem_cons_self)
      simp [first]

end Fields

/-! ## The comparison -/

section Compare

variable {text base ext : List UInt8} (plain : Plain text) (packs : Packs text base ext)
include plain packs

/-- The fields consist of characters of the text. -/
theorem Packs.subset : (∀ c ∈ base, c ∈ text) ∧ ∀ c ∈ ext, c ∈ text := by
  rcases packs.split with ⟨rfl, rfl⟩ | rfl
  · exact ⟨fun c member => member, fun c member => absurd member List.not_mem_nil⟩
  · refine ⟨fun c member => List.mem_append_left _ member, fun c member => ?_⟩
    exact List.mem_append_right _ (List.mem_cons_of_mem _ member)

theorem Packs.noBlank : space ∉ base ∧ space ∉ ext :=
  ⟨fun member => plain.noBlank ((packs.subset plain).1 _ member),
    fun member => plain.noBlank ((packs.subset plain).2 _ member)⟩

/-- What `fat32_name_match` compares a text with. -/
theorem nameMatch_packs {e : Dirent} (name : e.name = packName base ext) (other : List UInt8) :
    nameMatch e other = true ↔
      other.map upper = base.map upper ++ if ext = [] then [] else dot :: ext.map upper := by
  have format := formatName_packName packs.base_le packs.ext_le (packs.noBlank plain).1
    (packs.noBlank plain).2 name
  have upper_dot : upper dot = dot := by decide
  have uppers : (formatName e).map upper = formatName e := by
    rw [format, List.map_append, map_upper_upper]
    split
    · rfl
    · rw [List.map_cons, map_upper_upper, upper_dot]
  have noNul : (0 : UInt8) ∉ formatName e := by
    have inside := packs.subset plain
    have zero : ∀ field : List UInt8, (∀ c ∈ field, c ∈ text) → (0 : UInt8) ∉ field.map upper := by
      intro field sub
      rw [mem_map_upper_iff (by decide)]
      exact fun member => plain.noNul (sub _ member)
    rw [format, List.mem_append, not_or]
    refine ⟨zero base inside.1, ?_⟩
    split
    · exact List.not_mem_nil
    · rw [List.mem_cons, not_or]
      exact ⟨by decide, zero ext inside.2⟩
  have whole : (formatName e).takeWhile (· ≠ 0) = formatName e := by
    apply List.takeWhile_eq_self_iff.mpr
    intro c member
    simpa using fun zero : c = 0 => noNul (zero ▸ member)
  unfold nameMatch
  rw [whole, sameName_iff, uppers, ← format]
  exact eq_comm

end Compare

theorem padField_congr {width : Nat} {field field' : List UInt8}
    (same : field.map upper = field'.map upper) : padField width field = padField width field' := by
  unfold padField
  rw [same]

theorem packName_congr {base ext base' ext' : List UInt8} (bases : base.map upper = base'.map upper)
    (exts : ext.map upper = ext'.map upper) : packName base ext = packName base' ext' := by
  apply Subtype.ext
  show padField 8 base ++ padField 3 ext = padField 8 base' ++ padField 3 ext'
  rw [padField_congr bases, padField_congr exts]

section Agree

variable {text text' : List UInt8} (plain : Plain text) (plain' : Plain text') {e : Dirent}
  (made : makeName83 text' = some e.name)
include plain plain' made

/-- A text that matches an entry packs to its name. -/
theorem made_of_match (found : nameMatch e text = true) : makeName83 text = some e.name := by
  obtain ⟨base', ext', packs', name⟩ :=
    (makeName83_eq_some_iff plain'.nonempty plain'.noSlash).mp made
  have noDot : ∀ field : List UInt8, dot ∉ field → ∀ field' : List UInt8,
      field'.map upper = field.map upper → dot ∉ field' := by
    intro field free field' same
    rwa [← mem_map_upper_iff (by decide), same, mem_map_upper_iff (by decide)]
  have lengths : ∀ field field' : List UInt8, field'.map upper = field.map upper →
      field'.length = field.length := by
    intro field field' same
    simpa using congrArg List.length same
  rw [nameMatch_packs plain' packs' name] at found
  rw [makeName83_eq_some_iff plain.nonempty plain.noSlash, name]
  by_cases empty : ext' = []
  · rw [if_pos empty, List.append_nil] at found
    refine ⟨text, [], ⟨?_, by simp, ?_, by simp, .inl ⟨rfl, rfl⟩⟩, ?_⟩
    · rw [lengths base' text found]
      exact packs'.base_le
    · exact noDot base' packs'.base_noDot text found
    · rw [empty]
      exact packName_congr found.symm rfl
  · rw [if_neg empty] at found
    obtain ⟨base, rest, rfl, bases, rests⟩ := List.map_eq_append_iff.mp found
    obtain ⟨c, ext, rfl, isDot, exts⟩ := List.map_eq_cons_iff.mp rests
    obtain rfl := eq_of_upper_eq isDot (by decide)
    refine ⟨base, ext, ⟨?_, ?_, ?_, ?_, .inr rfl⟩, packName_congr bases.symm exts.symm⟩
    · rw [lengths base' base bases]
      exact packs'.base_le
    · rw [lengths ext' ext exts]
      exact packs'.ext_le
    · exact noDot base' packs'.base_noDot base bases
    · exact noDot ext' packs'.ext_noDot ext exts

/-- A text that packs to the name of an entry matches it, but for a final dot. -/
theorem match_of_made (noFinal : ¬ EndsInDot text) (same : makeName83 text = some e.name) :
    nameMatch e text = true := by
  obtain ⟨base', ext', packs', name⟩ :=
    (makeName83_eq_some_iff plain'.nonempty plain'.noSlash).mp made
  obtain ⟨base, ext, packs, name'⟩ :=
    (makeName83_eq_some_iff plain.nonempty plain.noSlash).mp same
  obtain ⟨bases, exts⟩ := packName_inj packs.base_le packs.ext_le (packs.noBlank plain).1
    (packs.noBlank plain).2 packs'.base_le packs'.ext_le (packs'.noBlank plain').1
    (packs'.noBlank plain').2 (name'.symm.trans name)
  have upper_dot : upper dot = dot := by decide
  rw [nameMatch_packs plain' packs' name, ← bases, ← exts]
  rcases packs.split with ⟨whole, none⟩ | whole
  · have none' : ext' = [] := by
      rw [none] at exts
      exact List.map_eq_nil_iff.mp exts.symm
    rw [whole, if_pos none', List.append_nil]
  · have some : ext' ≠ [] := by
      rintro rfl
      have none : ext = [] := List.map_eq_nil_iff.mp exts
      rw [none] at whole
      exact noFinal ⟨base, whole, packs.base_noDot, packs.base_le⟩
    rw [whole, if_neg some, List.map_append, List.map_cons, upper_dot]

end Agree

/-- A text with a final dot packs like the text without it, and does not match that entry. -/
theorem EndsInDot.unmatched {text : List UInt8} (plain : Plain text) (final : EndsInDot text) :
    ∃ name, makeName83 text = some name ∧
      ∀ e : Dirent, e.name = name → nameMatch e text = false := by
  obtain ⟨base, whole, noDot, short⟩ := final
  have packs : Packs text base [] := ⟨short, by simp, noDot, by simp, .inr whole⟩
  refine ⟨packName base [],
    (makeName83_eq_some_iff plain.nonempty plain.noSlash).mpr ⟨base, [], packs, rfl⟩, ?_⟩
  intro e name
  by_contra found
  have same := (nameMatch_packs plain packs name text).mp (by simpa using found)
  have lengths := congrArg List.length same
  rw [whole] at lengths
  simp at lengths

/-- For every text, the two comparisons agree on every packed entry exactly if the text does
not end in its only dot. -/
theorem matches_made_iff {text : List UInt8} (plain : Plain text) :
    (∀ (e : Dirent) text', Plain text' → makeName83 text' = some e.name →
      (nameMatch e text = true ↔ makeName83 text = some e.name)) ↔ ¬ EndsInDot text := by
  constructor
  · intro agree final
    obtain ⟨name, made, unmatched⟩ := final.unmatched plain
    have entry : ({ Dirent.zero with name } : Dirent).name = name := rfl
    have found := (agree { Dirent.zero with name } text plain made).mpr made
    rw [unmatched _ entry] at found
    cases found
  · intro noFinal e text' plain' made
    exact ⟨made_of_match plain plain' made, match_of_made plain plain' made noFinal⟩

end XosKernel.Fat32
