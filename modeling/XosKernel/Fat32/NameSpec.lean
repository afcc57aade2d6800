/-
# Fat32.NameSpec -- what an 8.3 name starts with

Scans decide by the first byte of a slot whether it holds an entry at all, so what matters
of `fat32_make_name83` is the first byte it can produce (`makeName83_name0`): a blank, or the
upper case of a character of the text that is no dot.  Names of printable text are therefore
never read as free slots, as deleted ones, or as `.` and `..`.
-/
import XosKernel.Fat32.Paths

namespace XosKernel.Fat32

open XosKernel.Theory

set_option autoImplicit false

/-- Printable ASCII text. -/
def Printable (text : List UInt8) : Prop := ∀ c, c ∈ text → 0x20 ≤ c.toNat ∧ c.toNat ≤ 0x7E

theorem toNat_upper (c : UInt8) :
    (upper c).toNat = if 0x61 ≤ c.toNat ∧ c.toNat ≤ 0x7A then c.toNat - 32 else c.toNat := by
  unfold upper
  by_cases letter : 0x61 ≤ c.toNat ∧ c.toNat ≤ 0x7A
  · have below : (32 : UInt8) ≤ c := by
      rw [UInt8.le_iff_toNat_le]
      exact Nat.le_trans (by decide) letter.1
    rw [if_pos letter, if_pos (show (0x61 : UInt8) ≤ c ∧ c ≤ 0x7A from letter),
      UInt8.toNat_sub_of_le _ _ below]
    rfl
  · rw [if_neg letter, if_neg (show ¬ ((0x61 : UInt8) ≤ c ∧ c ≤ 0x7A) from letter)]

/-- Only upper-case letters have two preimages. -/
theorem eq_of_upper_eq {c b : UInt8} (same : upper c = b)
    (other : b.toNat < 0x41 ∨ 0x5A < b.toNat) : c = b := by
  have values := congrArg UInt8.toNat same
  rw [toNat_upper] at values
  apply UInt8.toNat_inj.mp
  by_cases letter : 0x61 ≤ c.toNat ∧ c.toNat ≤ 0x7A
  · rw [if_pos letter] at values
    omega
  · rwa [if_neg letter] at values

/-- The base that the character loop collects consists of characters of the text. -/
theorem splitName_base :
    ∀ (name base ext : List UInt8) (sawDot : Bool) (p : List UInt8 × List UInt8),
    splitName name base ext sawDot = some p →
    ∀ c, c ∈ p.1 → c ∈ base ∨ (c ∈ name ∧ c ≠ dot)
  | [], base, ext, sawDot, p, result, c, member => by
      cases result
      exact .inl member
  | x :: name, base, ext, sawDot, p, result, c, member => by
      have later : (c ∈ base ∨ (c ∈ name ∧ c ≠ dot)) → c ∈ base ∨ (c ∈ x :: name ∧ c ≠ dot) := by
        rintro (old | ⟨inside, ne⟩)
        · exact .inl old
        · exact .inr ⟨List.mem_cons_of_mem _ inside, ne⟩
      unfold splitName at result
      split at result
      · cases result
      split at result
      · split at result
        · cases result
        · exact later (splitName_base name base ext true p result c member)
      split at result
      · split at result
        · cases result
        · rcases splitName_base name _ ext sawDot p result c member with old | inside
          · rcases List.mem_append.mp old with before | here
            · exact .inl before
            · rw [List.mem_singleton] at here
              exact .inr ⟨by rw [here]; exact List.mem_cons_self, by rw [here]; assumption⟩
          · exact later (.inr inside)
      · split at result
        · cases result
        · exact later (splitName_base name base _ sawDot p result c member)

theorem mem_of_mem_skipSlash {c : UInt8} {path : List UInt8} (member : c ∈ skipSlash path) :
    c ∈ path := by
  cases path with
  | nil => exact member
  | cons x path =>
      change c ∈ if x = slash then path else x :: path at member
      split at member
      · exact List.mem_cons_of_mem _ member
      · exact member

/-- The first byte of an 8.3 name. -/
theorem makeName83_name0 {path : List UInt8} {name : Name83} (made : makeName83 path = some name) :
    name.1.getD 0 0 = space ∨ ∃ c, c ∈ path ∧ c ≠ dot ∧ name.1.getD 0 0 = upper c := by
  unfold makeName83 at made
  cases text : skipSlash path with
  | nil => rw [text] at made; cases made
  | cons x rest =>
      rw [text] at made
      obtain ⟨⟨base, ext⟩, split, rfl⟩ := Option.map_eq_some_iff.mp made
      cases base with
      | nil => exact .inl rfl
      | cons c base =>
          right
          rcases splitName_base _ _ _ _ _ split c List.mem_cons_self with old | ⟨inside, ne⟩
          · cases old
          · exact ⟨c, mem_of_mem_skipSlash (by rw [text]; exact inside), ne, rfl⟩

/-- A byte that no text character and no blank produces does not start a name. -/
theorem makeName83_name0_ne {path : List UInt8} {name : Name83} {b : UInt8}
    (made : makeName83 path = some name) (other : b.toNat < 0x41 ∨ 0x5A < b.toNat)
    (blank : b ≠ space) (absent : b ∉ path ∨ b = dot) : name.1.getD 0 0 ≠ b := by
  intro same
  rcases makeName83_name0 made with isBlank | ⟨c, member, ne, isUpper⟩
  · exact blank (same.symm.trans isBlank)
  · have hit := eq_of_upper_eq (isUpper.symm.trans same) other
    rcases absent with missing | rfl
    · exact missing (hit ▸ member)
    · exact ne hit

/-- `.` and `..` are not 8.3 names of any text. -/
theorem makeName83_not_dots {path : List UInt8} {name : Name83}
    (made : makeName83 path = some name) : name ≠ dotName ∧ name ≠ dotdotName := by
  have first := makeName83_name0_ne (b := dot) made (by decide) (by decide) (.inr rfl)
  refine ⟨?_, ?_⟩
  · rintro rfl
    exact first rfl
  · rintro rfl
    exact first rfl

theorem makeName83_not_end {path : List UInt8} {name : Name83} (text : (0 : UInt8) ∉ path)
    (made : makeName83 path = some name) : name.1.getD 0 0 ≠ 0 :=
  makeName83_name0_ne made (by decide) (by decide) (.inl text)

theorem makeName83_undeleted {path : List UInt8} {name : Name83} (text : (0xE5 : UInt8) ∉ path)
    (made : makeName83 path = some name) : name.1.getD 0 0 ≠ 0xE5 :=
  makeName83_name0_ne made (by decide) (by decide) (.inl text)

theorem Printable.undeleted {text : List UInt8} (printable : Printable text) :
    (0xE5 : UInt8) ∉ text := by
  intro member
  have := (printable _ member).2
  exact absurd this (by decide)

theorem makeName83_not_deleted {path : List UInt8} {name : Name83} (text : Printable path)
    (made : makeName83 path = some name) : name.1.getD 0 0 ≠ 0xE5 :=
  makeName83_undeleted text.undeleted made

theorem Printable.no_nul {text : List UInt8} (printable : Printable text) : (0 : UInt8) ∉ text := by
  intro member
  have := (printable _ member).1
  exact absurd this (by decide)

/-! ## Slashes -/

theorem skipSlash_of_not_mem {name : List UInt8} (noSlash : slash ∉ name) :
    skipSlash name = name := by
  cases name with
  | nil => rfl
  | cons c rest =>
      rw [List.mem_cons, not_or] at noSlash
      exact if_neg (Ne.symm noSlash.1)

/-- A name that packs into 8.3 bytes has no slash after a leading one. -/
theorem splitName_no_slash : ∀ (name base ext : List UInt8) (sawDot : Bool)
    (r : List UInt8 × List UInt8), splitName name base ext sawDot = some r → slash ∉ name
  | [], _, _, _, _, _ => List.not_mem_nil
  | c :: name, base, ext, sawDot, r, split => by
      unfold splitName at split
      split at split
      · cases split
      rename_i ne
      refine fun member => ?_
      have rest : slash ∈ name := by
        rcases List.mem_cons.mp member with here | rest
        · exact absurd here.symm ne
        · exact rest
      split at split
      · split at split
        · cases split
        · exact splitName_no_slash name _ _ _ r split rest
      split at split
      · split at split
        · cases split
        · exact splitName_no_slash name _ _ _ r split rest
      · split at split
        · cases split
        · exact splitName_no_slash name _ _ _ r split rest

/-- The name under which open looks for what a mkdir of `dirname` made. -/
theorem makeName83_skipSlash {dirname : List UInt8} {name : Name83}
    (made : makeName83 dirname = some name) :
    slash ∉ skipSlash dirname ∧ makeName83 (skipSlash (skipSlash dirname)) = some name := by
  have noSlash : slash ∉ skipSlash dirname := by
    unfold makeName83 at made
    cases text : skipSlash dirname with
    | nil => exact List.not_mem_nil
    | cons c rest =>
        rw [text] at made
        obtain ⟨r, split, -⟩ := Option.map_eq_some_iff.mp made
        exact splitName_no_slash _ _ _ _ r split
  refine ⟨noSlash, ?_⟩
  rw [skipSlash_of_not_mem noSlash]
  unfold makeName83 at made ⊢
  rw [skipSlash_of_not_mem noSlash]
  exact made

end XosKernel.Fat32
