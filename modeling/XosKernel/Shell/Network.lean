/-
# Shell.Network -- the `ping` and `arp` commands

`parse_ip4` reads an address into four octets, and the commands assemble them into a number
with the first octet on top.  `net.c` stores and prints an address low byte first.  So a frame
carries, and a line shows, the octets in reverse order (`le32_targetIp`), and the two agree only
for addresses that read the same backwards (`addresses_right_iff`).
-/
import XosKernel.Net.Frames
import XosKernel.Theory.Bytes
import Mathlib.Logic.Function.Basic

namespace XosKernel.Shell

open XosKernel.Lib XosKernel.Net XosKernel.Theory

set_option autoImplicit false

/-! ## Addresses -/

/-- The characters of a string, without its NUL. -/
abbrev Text := List UInt8

/-- The loop of `parse_ip4`: `i`, `num` and `octets` after it, or `none` for a `return -1`. -/
def parseIp4Loop : Text → Nat → Nat → Buf → Option (Nat × Nat × Buf)
  | [], i, num, octets => some (i, num, octets)
  | c :: s, i, num, octets =>
      if i < 4 then
        if 0x30 ≤ c ∧ c ≤ 0x39 then
          let num := num * 10 + (c.toNat - 48)
          if 255 < num then none else parseIp4Loop s i num octets
        else if c = 0x2E then
          parseIp4Loop s (i + 1) 0 (Function.update octets i (UInt8.ofNat num))
        else none
      else some (i, num, octets)

/-- `parse_ip4`: the octets, or `none` for `-1`. -/
def parseIp4 (s : Text) (octets : Buf) : Option Buf :=
  match parseIp4Loop s 0 0 octets with
  | none => none
  | some (i, num, octets) =>
      if i = 3 ∧ num ≤ 255 then some (Function.update octets 3 (UInt8.ofNat num)) else none

/-- The address as `cmd_ping` and `cmd_arp` assemble it. -/
def targetIp (octets : Buf) : UInt32 :=
  ((octets 0).toUInt32 <<< 24) ||| ((octets 1).toUInt32 <<< 16) |||
    ((octets 2).toUInt32 <<< 8) ||| (octets 3).toUInt32

/-! ## The commands -/

/-- What a command does to the outside. -/
inductive Act where
  | print (text : List UInt8)
  | send (sent : Sent)
  | flush
  | sleep (ms : Nat)
  deriving DecidableEq

/-- `sh_strcmp` -/
def shStrcmp : Text → Text → Int
  | a :: s, b :: t => if a = b then shStrcmp s t else (a.toNat : Int) - b.toNat
  | a :: _, [] => a.toNat
  | [], b :: _ => - (b.toNat : Int)
  | [], [] => 0

/-- The loop of `cmd_ping` over the digits of the count. -/
def parseCount : Text → Int → Int
  | [], count => count
  | c :: s, count =>
      if 0x30 ≤ c ∧ c ≤ 0x39 then parseCount s (wrap 32 (count * 10 + (c.toNat - 48))) else count

/-- `count` and `host` of `cmd_ping`.  With `-c` and no host it reads an element of `argv` that
was never set, which is `none` here. -/
def pingArgs (argv : List Text) : Option (Int × Text) :=
  if 3 ≤ argv.length ∧ shStrcmp (argv.getD 1 []) (ascii "-c") = 0 then
    argv[3]?.map fun host => (parseCount (argv.getD 2 []) 0, host)
  else argv[1]?.map fun host => (4, host)

/-- Four octets as arguments of `printf`. -/
def octetArgs (octets : Buf) : List PrintArg :=
  [.int (octets 0).toNat, .int (octets 1).toNat, .int (octets 2).toNat, .int (octets 3).toNat]

/-- The first passes of the loop of `cmd_ping`, from `seq` on. -/
def pingLoop (net : Station) (target : UInt32) (count : Int) : Nat → Int → List Act
  | 0, _ => []
  | passes + 1, seq =>
      if seq ≤ count then
        [.send (netSendIcmpEcho net target (UInt16.ofNat (seq % 2 ^ 16).toNat)),
          .print (printf "Sent ICMP echo request %d\n" [.int seq]), .flush] ++
        (if seq < count then [.sleep 1000] else []) ++
        pingLoop net target count passes (wrap 32 (seq + 1))
      else []

/-- `cmd_ping`, with at most so many passes of its loop: a count of `INT_MAX` never ends it. -/
def cmdPing (net : Station) (argv : List Text) (passes : Nat) : Option (List Act) :=
  if argv.length < 2 then some [.print (printf "Usage: ping [-c count] <host>\n" [])]
  else
    match pingArgs argv with
    | none => none
    | some (count, host) =>
        match parseIp4 host fun _ => 0 with
        | none => some [.print (printf "ping: invalid address\n" [])]
        | some octets =>
            some (.print (printf "PING %d.%d.%d.%d (%d.%d.%d.%d) 56(84) bytes of data.\n"
                (octetArgs octets ++ octetArgs octets)) ::
              pingLoop net (targetIp octets) count passes 1)

/-- `cmd_arp` -/
def cmdArp (net : Station) (argv : List Text) : List Act :=
  match argv[1]? with
  | none => [.print (printf "Usage: arp <host>\n" [])]
  | some host =>
      match parseIp4 host fun _ => 0 with
      | none => [.print (printf "arp: invalid address\n" [])]
      | some octets =>
          [.print (printf "ARPING %d.%d.%d.%d from 127.0.0.1\n" (octetArgs octets)),
            .send (netSendArpRequest net (targetIp octets))]

/-! ## Byte order -/

/-- The number has the first octet on top. -/
theorem toNat_targetIp (octets : Buf) : (targetIp octets).toNat =
    (octets 0).toNat * 2 ^ 24 + (octets 1).toNat * 2 ^ 16 + (octets 2).toNat * 2 ^ 8 +
      (octets 3).toNat := by
  have b0 := (octets 0).toNat_lt
  have b1 := (octets 1).toNat_lt
  have b2 := (octets 2).toNat_lt
  have b3 := (octets 3).toNat_lt
  have shift : ∀ (b : UInt8) (k : Nat), k ≤ 24 → b.toNat <<< k % 2 ^ 32 = b.toNat <<< k := by
    intro b k small
    have bound := b.toNat_lt
    rw [Nat.shiftLeft_eq]
    refine Nat.mod_eq_of_lt ?_
    calc b.toNat * 2 ^ k ≤ 255 * 2 ^ 24 :=
          Nat.mul_le_mul (by omega) (Nat.pow_le_pow_right (by omega) small)
      _ < 2 ^ 32 := by decide
  simp only [targetIp, UInt32.toNat_or, UInt32.toNat_shiftLeft, UInt8.toNat_toUInt32,
    UInt32.reduceToNat, Nat.reduceMod]
  rw [shift _ 24 (by decide), shift _ 16 (by decide), shift _ 8 (by decide), Nat.or_assoc,
    Nat.or_assoc, ← Nat.shiftLeft_add_eq_or_of_lt (show (octets 3).toNat < 2 ^ 8 by omega),
    ← Nat.shiftLeft_add_eq_or_of_lt (show (octets 2).toNat <<< 8 + (octets 3).toNat < 2 ^ 16 by
      simp only [Nat.shiftLeft_eq]; omega),
    ← Nat.shiftLeft_add_eq_or_of_lt (show (octets 1).toNat <<< 16 + ((octets 2).toNat <<< 8 +
      (octets 3).toNat) < 2 ^ 24 by simp only [Nat.shiftLeft_eq]; omega)]
  simp only [Nat.shiftLeft_eq]
  omega

/-- In memory the octets are in reverse order. -/
theorem le32_targetIp (octets : Buf) :
    le32 (targetIp octets) = [octets 3, octets 2, octets 1, octets 0] := by
  have value := toNat_targetIp octets
  have b0 := (octets 0).toNat_lt
  have b1 := (octets 1).toNat_lt
  have b2 := (octets 2).toNat_lt
  have b3 := (octets 3).toNat_lt
  simp only [le32, List.cons.injEq, and_true, ← UInt8.toNat_inj, UInt32.toNat_toUInt8,
    UInt32.toNat_shiftRight, UInt32.reduceToNat, Nat.reduceMod, Nat.shiftRight_eq_div_pow, value]
  omega

/-! ## The address that goes out -/

/-- The frame carries `a`, `b`, `c`, `d` in this order, and the line of `net.c` shows them. -/
structure ArpRight (octets : Buf) (sent : Sent) : Prop where
  frame : arpTargetBytes sent.frame = [octets 0, octets 1, octets 2, octets 3]
  line : sent.line = ascii "[NET] Sending ARP request for " ++
    dotted (octets 0) (octets 1) (octets 2) (octets 3) ++ ascii "\n"

structure EchoRight (octets : Buf) (sent : Sent) : Prop where
  frame : ipv4DestBytes sent.frame = [octets 0, octets 1, octets 2, octets 3]
  line : sent.line = ascii "[NET] Sending ICMP echo request to " ++
    dotted (octets 0) (octets 1) (octets 2) (octets 3) ++ ascii "\n"

/-- The address reads the same backwards. -/
def Palindrome (octets : Buf) : Prop := octets 0 = octets 3 ∧ octets 1 = octets 2

/-- The four bytes that `net.c` shows. -/
theorem shown_bytes (octets : Buf) :
    (targetIp octets).toUInt8 = octets 3 ∧ (targetIp octets >>> 8).toUInt8 = octets 2 ∧
      (targetIp octets >>> 16).toUInt8 = octets 1 ∧
      (targetIp octets >>> 24).toUInt8 = octets 0 := by
  have bytes := le32_targetIp octets
  simpa only [le32, List.cons.injEq, and_true] using bytes

/-- Reversed octets are in order exactly for a palindrome. -/
theorem reversed_eq_iff (octets : Buf) :
    [octets 3, octets 2, octets 1, octets 0] = [octets 0, octets 1, octets 2, octets 3] ↔
      Palindrome octets := by
  simp only [List.cons.injEq, and_true, Palindrome]
  constructor
  · rintro ⟨-, -, inner, outer⟩
    exact ⟨outer, inner⟩
  · rintro ⟨outer, inner⟩
    exact ⟨outer.symm, inner.symm, inner, outer⟩

theorem arpRight_iff (net : Station) (octets : Buf) :
    ArpRight octets (netSendArpRequest net (targetIp octets)) ↔ Palindrome octets := by
  constructor
  · intro right
    rw [← reversed_eq_iff, ← le32_targetIp, ← arp_target net]
    exact right.frame
  · intro same
    obtain ⟨first, second, third, fourth⟩ := shown_bytes octets
    refine ⟨?_, ?_⟩
    · rw [arp_target, le32_targetIp, reversed_eq_iff]
      exact same
    · rw [arp_line, first, second, third, fourth, same.1, same.2]

theorem echoRight_iff (net : Station) (octets : Buf) (seq : UInt16) :
    EchoRight octets (netSendIcmpEcho net (targetIp octets) seq) ↔ Palindrome octets := by
  constructor
  · intro right
    rw [← reversed_eq_iff, ← le32_targetIp, ← echo_dest net _ seq]
    exact right.frame
  · intro same
    obtain ⟨first, second, third, fourth⟩ := shown_bytes octets
    refine ⟨?_, ?_⟩
    · rw [echo_dest, le32_targetIp, reversed_eq_iff]
      exact same
    · rw [echo_line, first, second, third, fourth, same.1, same.2]

/-- Everything that the loop sends is an echo request to the target. -/
theorem pingLoop_sends (net : Station) (target : UInt32) (count : Int) (passes : Nat) (seq : Int)
    {sent : Sent} (member : .send sent ∈ pingLoop net target count passes seq) :
    ∃ s, sent = netSendIcmpEcho net target s := by
  induction passes generalizing seq with
  | zero => cases member
  | succ passes ih =>
      rw [pingLoop] at member
      split at member
      · simp only [List.mem_append, List.mem_cons, Act.send.injEq, reduceCtorEq, List.not_mem_nil,
          or_false] at member
        rcases member with (rfl | pause) | later
        · exact ⟨_, rfl⟩
        · split at pause <;> simp at pause
        · exact ih _ later
      · cases member

/-- For every argument that `parse_ip4` accepts: what `arp` sends and shows is the address if
and only if it is a palindrome; and what `ping` sends and shows is, if and only if it is or
nothing is sent at all. -/
theorem addresses_right_iff (net : Station) (argv : List Text) (host : Text) (octets : Buf)
    (accepted : parseIp4 host (fun _ => 0) = some octets) :
    (argv[1]? = some host →
      ((∀ sent, .send sent ∈ cmdArp net argv → ArpRight octets sent) ↔ Palindrome octets)) ∧
    (∀ count, pingArgs argv = some (count, host) →
      ((∀ passes acts, cmdPing net argv passes = some acts →
          ∀ sent, .send sent ∈ acts → EchoRight octets sent) ↔
        count < 1 ∨ Palindrome octets)) := by
  constructor
  · intro argument
    have acts : cmdArp net argv = [.print (printf "ARPING %d.%d.%d.%d from 127.0.0.1\n"
        (octetArgs octets)), .send (netSendArpRequest net (targetIp octets))] := by
      simp only [cmdArp, argument, accepted]
    rw [acts, ← arpRight_iff net octets]
    simp
  · intro count arguments
    have long : ¬ argv.length < 2 := by
      intro short
      have none : argv[1]? = none := List.getElem?_eq_none (by omega)
      rw [pingArgs, if_neg (by omega), none] at arguments
      cases arguments
    have acts : ∀ passes, cmdPing net argv passes =
        some (.print (printf "PING %d.%d.%d.%d (%d.%d.%d.%d) 56(84) bytes of data.\n"
          (octetArgs octets ++ octetArgs octets)) ::
          pingLoop net (targetIp octets) count passes 1) := by
      intro passes
      simp only [cmdPing, if_neg long, arguments, accepted]
    constructor
    · intro right
      by_contra wrong
      rw [not_or, not_lt] at wrong
      apply wrong.2
      rw [← echoRight_iff net octets (UInt16.ofNat ((1 : Int) % 2 ^ 16).toNat)]
      refine right 1 _ (acts 1) _ ?_
      rw [pingLoop, if_pos wrong.1]
      simp
    · intro fine passes _ is sent member
      rw [acts passes] at is
      cases is
      rcases List.mem_cons.mp member with impossible | looped
      · cases impossible
      · obtain ⟨s, rfl⟩ := pingLoop_sends net _ count passes 1 looped
        rcases fine with none | same
        · cases passes with
          | zero => cases looped
          | succ passes =>
              rw [pingLoop, if_neg (by omega)] at looped
              cases looped
        · exact (echoRight_iff net octets s).mpr same

def demoStation : Station := ⟨fun _ => 0x52, 0⟩

theorem palindrome_right : ∃ octets,
    parseIp4 (ascii "10.2.2.10") (fun _ => 0) = some octets ∧ Palindrome octets ∧
      (∀ sent, .send sent ∈ cmdArp demoStation [ascii "arp", ascii "10.2.2.10"] →
        ArpRight octets sent) ∧
      ∀ passes acts, cmdPing demoStation [ascii "ping", ascii "10.2.2.10"] passes = some acts →
        ∀ sent, .send sent ∈ acts → EchoRight octets sent := by
  refine ⟨_, rfl, ⟨by decide, by decide⟩, ?_, ?_⟩
  · exact ((addresses_right_iff demoStation [ascii "arp", ascii "10.2.2.10"] (ascii "10.2.2.10") _
      rfl).1 rfl).mpr ⟨by decide, by decide⟩
  · exact ((addresses_right_iff demoStation [ascii "ping", ascii "10.2.2.10"] (ascii "10.2.2.10") _
      rfl).2 4 (by decide)).mpr (.inr ⟨by decide, by decide⟩)

/-- `arp 10.0.2.2` asks for 2.2.0.10. -/
theorem arp_asks_reversed : ∃ octets sent,
    parseIp4 (ascii "10.0.2.2") (fun _ => 0) = some octets ∧
      .send sent ∈ cmdArp demoStation [ascii "arp", ascii "10.0.2.2"] ∧
      arpTargetBytes sent.frame = [2, 2, 0, 10] ∧ ¬ ArpRight octets sent := by
  refine ⟨_, netSendArpRequest demoStation (0x0A000202), rfl, by decide, by decide, ?_⟩
  intro right
  exact absurd right.frame (by decide)

end XosKernel.Shell
