/-
# Shell.Addresses -- the strings that `parse_ip4` takes for an address

An address is four numbers up to 255, in digits, with a dot between two (`IsAddress`).
`parse_ip4` counts the dots, and checks every character and the size of every number; what it
does not check is that a number has a digit.  So it takes four fields of digits of which some are
empty, such as `...` or `1..2.3`, for an address with zeros there; on all other strings it is
right (`addressRight_iff`).
-/
import XosKernel.Shell.CommandLine

namespace XosKernel.Shell

open XosKernel.Lib XosKernel.Net XosKernel.Theory

set_option autoImplicit false

/-! ## Addresses -/

/-- What is between the dots of a string. -/
def fields (s : Text) : List Text := s.splitOn 0x2E

/-- `num` after digits. -/
def numberFrom (num : Nat) (field : Text) : Nat :=
  field.foldl (fun num c => num * 10 + (c.toNat - 48)) num

/-- The number that digits are. -/
def number (field : Text) : Nat := numberFrom 0 field

/-- Digits, perhaps none, that make of `num` a number up to 255. -/
def OctetFrom (num : Nat) (field : Text) : Prop :=
  (∀ c ∈ field, 0x30 ≤ c ∧ c ≤ 0x39) ∧ numberFrom num field ≤ 255

/-- Digits, perhaps none, of a number up to 255. -/
def Octet (field : Text) : Prop := OctetFrom 0 field

/-- Four numbers up to 255 with single dots between them. -/
def IsAddress (s : Text) : Prop :=
  (fields s).length = 4 ∧ ∀ field ∈ fields s, field ≠ [] ∧ Octet field

/-- Four fields as in an address, but one is empty. -/
def MissingField (s : Text) : Prop :=
  (fields s).length = 4 ∧ (∀ field ∈ fields s, Octet field) ∧ [] ∈ fields s

/-- `parse_ip4` stores in the four octets only, returns 0 for addresses and for nothing else, and
then the octets are the numbers. -/
structure AddressRight (s : Text) : Prop where
  inside : ∀ octets, parseIp4Into s octets ≠ none
  accepts : ∀ octets, (∃ octets', parseIp4Into s octets = some (some octets')) ↔ IsAddress s
  holds : ∀ octets octets', parseIp4Into s octets = some (some octets') →
    (octets'.toList 0 4).map UInt8.toNat = (fields s).map number

/-! ## Fields -/

theorem fields_dot (s : Text) : fields (0x2E :: s) = [] :: fields s := by
  rw [fields, List.splitOn_cons_eq_if_modifyHead, if_pos (by decide)]
  rfl

theorem fields_cons {c : UInt8} (other : c ≠ 0x2E) {s field : Text} {rest : List Text}
    (split : fields s = field :: rest) : fields (c :: s) = (c :: field) :: rest := by
  unfold fields at split ⊢
  rw [List.splitOn_cons_eq_if_modifyHead, if_neg (by simpa using other), split]
  rfl

theorem le_numberFrom (num : Nat) (field : Text) : num ≤ numberFrom num field := by
  induction field generalizing num with
  | nil => exact Nat.le_refl num
  | cons c rest ih =>
      have step := ih (num * 10 + (c.toNat - 48))
      show num ≤ numberFrom (num * 10 + (c.toNat - 48)) rest
      omega

/-! ## The loop -/

/-- The octets with numbers stored from place `i` on. -/
def storeOctets (octets : Buf) : Nat → List Nat → Buf
  | _, [] => octets
  | i, num :: rest => storeOctets (Function.update octets i (UInt8.ofNat num)) (i + 1) rest

/-- What `parse_ip4` makes of the variables after its loop. -/
def finish : Option (Nat × Nat × Buf) → Option Buf
  | none => none
  | some (i, num, octets) =>
      if i = 3 ∧ num ≤ 255 then some (Function.update octets 3 (UInt8.ofNat num)) else none

theorem parseIp4_eq_finish (s : Text) (octets : Buf) :
    parseIp4 s octets = finish (parseIp4Loop s 0 0 octets) := by
  unfold parseIp4 finish
  rfl

theorem octetFrom_nil {num : Nat} : OctetFrom num [] ↔ num ≤ 255 :=
  and_iff_right fun _ none_ => absurd none_ List.not_mem_nil

theorem octetFrom_cons {num : Nat} {c : UInt8} {field : Text} :
    OctetFrom num (c :: field) ↔
      (0x30 ≤ c ∧ c ≤ 0x39) ∧ OctetFrom (num * 10 + (c.toNat - 48)) field := by
  unfold OctetFrom
  rw [List.forall_mem_cons, and_assoc]
  rfl

/-- What is left of a string, when a number has been started, is taken if it has the right number
of fields, and these are octets. -/
theorem finish_loop {s field : Text} {rest : List Text} (split : fields s = field :: rest)
    {i num : Nat} (early : i ≤ 3) (small : num ≤ 255) (octets octets' : Buf) :
    finish (parseIp4Loop s i num octets) = some octets' ↔
      (i + rest.length = 3 ∧ OctetFrom num field ∧ ∀ other ∈ rest, Octet other) ∧
        storeOctets octets i (numberFrom num field :: rest.map number) = octets' := by
  induction s generalizing field rest i num octets with
  | nil =>
      obtain ⟨rfl, rfl⟩ := List.cons.inj (show [[]] = field :: rest from split)
      rw [parseIp4Loop, finish, octetFrom_nil]
      by_cases last : i = 3
      · subst last
        rw [if_pos ⟨rfl, small⟩, Option.some.injEq]
        exact (and_iff_right ⟨rfl, small, fun _ none_ => absurd none_ List.not_mem_nil⟩).symm
      · rw [if_neg fun both => last both.1]
        exact iff_of_false (Option.some_ne_none octets').symm fun all => last all.1.1
  | cons c s ih =>
      rw [parseIp4Loop, if_pos (by omega)]
      obtain ⟨first, others, behind⟩ := List.exists_cons_of_ne_nil (List.splitOn_ne_nil 0x2E s)
      by_cases digit : 0x30 ≤ c ∧ c ≤ 0x39
      · have other : c ≠ 0x2E := by
          rintro rfl
          exact absurd digit.1 (by decide)
        rw [fields_cons other behind] at split
        obtain ⟨rfl, rfl⟩ := List.cons.inj split
        rw [if_pos digit, octetFrom_cons, and_iff_right digit]
        dsimp only
        by_cases large : 255 < num * 10 + (c.toNat - 48)
        · rw [if_pos large]
          refine iff_of_false (Option.some_ne_none octets').symm fun all => ?_
          have grows := le_numberFrom (num * 10 + (c.toNat - 48)) first
          have bound := all.1.2.1.2
          omega
        · rw [if_neg large]
          exact ih behind early (Nat.not_lt.mp large) octets
      · rw [if_neg digit]
        by_cases dot : c = 0x2E
        · subst dot
          rw [fields_dot] at split
          obtain ⟨rfl, rfl⟩ := List.cons.inj split
          rw [if_pos rfl, octetFrom_nil]
          by_cases more : i + 1 ≤ 3
          · have count : i + 1 + others.length = i + (first :: others).length := by
              rw [List.length_cons]
              omega
            rw [ih behind more (Nat.zero_le 255), show fields s = first :: others from behind,
              List.forall_mem_cons, and_iff_right small, count]
            exact Iff.rfl
          · -- after four dots the loop is over
            have ended : parseIp4Loop s (i + 1) 0 (Function.update octets i (UInt8.ofNat num)) =
                some (i + 1, 0, Function.update octets i (UInt8.ofNat num)) := by
              cases s with
              | nil => rfl
              | cons c s => rw [parseIp4Loop, if_neg (by omega)]
            rw [ended, finish, if_neg (by omega), show fields s = first :: others from behind]
            refine iff_of_false (Option.some_ne_none octets').symm fun all => ?_
            have count := all.1.1
            rw [List.length_cons] at count
            omega
        · rw [if_neg dot]
          rw [fields_cons dot behind] at split
          obtain ⟨rfl, rfl⟩ := List.cons.inj split
          refine iff_of_false (Option.some_ne_none octets').symm fun all => digit ?_
          exact (octetFrom_cons.mp all.1.2.1).1

/-- `parse_ip4` takes four fields that are octets, empty or not, and stores their numbers. -/
theorem parseIp4_eq_some {s : Text} {octets octets' : Buf} :
    parseIp4 s octets = some octets' ↔
      ((fields s).length = 4 ∧ ∀ field ∈ fields s, Octet field) ∧
        storeOctets octets 0 ((fields s).map number) = octets' := by
  obtain ⟨first, rest, split⟩ := List.exists_cons_of_ne_nil (List.splitOn_ne_nil 0x2E s)
  have all := finish_loop split (Nat.zero_le 3) (Nat.zero_le 255) octets octets'
  rw [parseIp4_eq_finish, all, show fields s = first :: rest from split, List.forall_mem_cons,
    List.length_cons, Nat.zero_add, Nat.succ_inj]
  exact Iff.rfl

/-- Four numbers up to 255 are in the octets in their order. -/
theorem toList_storeOctets (octets : Buf) {a b c d : Nat}
    (small : a ≤ 255 ∧ b ≤ 255 ∧ c ≤ 255 ∧ d ≤ 255) :
    ((storeOctets octets 0 [a, b, c, d]).toList 0 4).map UInt8.toNat = [a, b, c, d] := by
  obtain ⟨first, second, third, fourth⟩ := small
  have stored : (storeOctets octets 0 [a, b, c, d]).toList 0 4 =
      [UInt8.ofNat a, UInt8.ofNat b, UInt8.ofNat c, UInt8.ofNat d] := rfl
  rw [stored]
  simp only [List.map_cons, List.map_nil, UInt8.toNat_ofNat', List.cons.injEq, and_true]
  omega

/-- `parse_ip4` is right about a string exactly when the string is not one with an empty field in
the place of a number. -/
theorem addressRight_iff (s : Text) : AddressRight s ↔ ¬ MissingField s := by
  constructor
  · rintro right ⟨count, octets, empty⟩
    have taken : parseIp4 s (fun _ => 0) = some _ :=
      parseIp4_eq_some.mpr ⟨⟨count, octets⟩, rfl⟩
    have address := (right.accepts fun _ => 0).mp ⟨_, by rw [parseIp4Into_eq, taken]⟩
    exact (address.2 [] empty).1 rfl
  · intro full
    have complete : ((fields s).length = 4 ∧ ∀ field ∈ fields s, Octet field) → IsAddress s := by
      rintro ⟨count, octets⟩
      refine ⟨count, fun field member => ⟨?_, octets field member⟩⟩
      rintro rfl
      exact full ⟨count, octets, member⟩
    refine ⟨?_, ?_, ?_⟩
    · intro octets stuck
      rw [parseIp4Into_eq] at stuck
      cases stuck
    · intro octets
      rw [parseIp4Into_eq]
      constructor
      · rintro ⟨octets', taken⟩
        exact complete (parseIp4_eq_some.mp (Option.some.inj taken)).1
      · rintro ⟨count, all⟩
        have taken : parseIp4 s octets = some _ :=
          parseIp4_eq_some.mpr ⟨⟨count, fun field member => (all field member).2⟩, rfl⟩
        exact ⟨_, congrArg some taken⟩
    · intro octets octets' taken
      rw [parseIp4Into_eq, Option.some.injEq, parseIp4_eq_some] at taken
      obtain ⟨⟨count, all⟩, rfl⟩ := taken
      obtain ⟨a, b, c, d, four⟩ := List.length_eq_four.mp count
      rw [four] at all ⊢
      have small : ∀ field ∈ [a, b, c, d], number field ≤ 255 := fun field member =>
        (all field member).2
      refine toList_storeOctets octets ⟨small a ?_, small b ?_, small c ?_, small d ?_⟩ <;> simp

/-- Three dots alone are taken for the address 0.0.0.0. -/
theorem addressRight_of_dots : ¬ ∀ s : Text, AddressRight s := by
  intro all
  have wrong := ((all (ascii "...")).accepts fun _ => 0).mp ⟨_, rfl⟩
  exact (wrong.2 [] (by decide)).1 rfl

end XosKernel.Shell
