import Mathlib.Tactic.Common
import Mtproto.Config

/-!
# The address of a datacenter

A configuration has the address of its server as one text, such as `127.0.0.1:443`.
`Config.datacenter?` takes it apart into a host and a port, and `Datacenter.addr` puts the two
together again with a colon between them.  Is that the address it came from?

It is for an IPv4 address: the four numbers and the port are read back as they were written
(`readIPv4_text`, `read_port`).  It is not for an IPv6 address.  Its text has colons of its own and
needs brackets in front of a port, which `addr` does not write: up to the first colon there are only
hexadecimal digits (`meetsColon_text`), and no socket address starts in that way
(`ofText?_of_meetsColon`).

* `Numeral.read_toDigits`: a number is read back from its digits, in any radix and in front of
  anything that is no digit.
* `Config.addr_round_trips_iff`: the address comes back exactly if it is an IPv4 address.
* `Config.addr_without_brackets`: an IPv6 address that does not.
-/

namespace Mtproto

namespace Net

/-! ## 1. Numbers -/

theorem digitValue_digitChar {n : Nat} (h : n < 16) : digitValue n.digitChar = n := by
  have hall : ∀ n < 16, digitValue n.digitChar = n := by decide
  exact hall n h

section Radix

-- The last digit comes off the end, so the inductions go from `n` to `n / b`.

variable {b n : Nat} (hb : 1 < b) (hb' : b ≤ 16)
include hb hb'

theorem digitValue_lt_of_mem_toDigits {c : Char} (h : c ∈ Nat.toDigits b n) :
    digitValue c < b := by
  induction n using Nat.strongRecOn with
  | ind n ih =>
    have hlast : n % b < b := Nat.mod_lt n (by omega)
    rw [Nat.toDigits_eq_if hb] at h
    split at h
    · obtain rfl := List.mem_singleton.mp h
      rwa [digitValue_digitChar (by omega)]
    · rcases List.mem_append.mp h with h | h
      · exact ih (n / b) (Nat.div_lt_self (by omega) hb) h
      · obtain rfl := List.mem_singleton.mp h
        rwa [digitValue_digitChar (by omega)]

/-- The digits of a number have its value. -/
theorem foldl_toDigits :
    (Nat.toDigits b n).foldl (fun n c => n * b + digitValue c) 0 = n := by
  induction n using Nat.strongRecOn with
  | ind n ih =>
    have hlast : n % b < b := Nat.mod_lt n (by omega)
    rw [Nat.toDigits_eq_if hb]
    split
    · simp [digitValue_digitChar (show n < 16 by omega)]
    · rw [List.foldl_append, ih (n / b) (Nat.div_lt_self (by omega) hb), List.foldl_cons,
        List.foldl_nil, digitValue_digitChar (by omega), Nat.div_add_mod']

/-- No zero stands in front. -/
theorem head?_toDigits_ne (hn : 0 < n) : (Nat.toDigits b n).head? ≠ some '0' := by
  induction n using Nat.strongRecOn with
  | ind n ih =>
    rw [Nat.toDigits_eq_if hb]
    split
    · intro h
      have hzero : digitValue n.digitChar = digitValue '0' := congrArg digitValue (by simpa using h)
      rw [digitValue_digitChar (by omega)] at hzero
      exact absurd hzero (Nat.ne_of_gt hn)
    · rename_i hle
      rw [List.head?_append, Option.or_of_isSome (by simp [Nat.toDigits_ne_nil])]
      exact ih (n / b) (Nat.div_lt_self hn hb) (Nat.div_pos (Nat.not_lt.mp hle) (by omega))

end Radix

/-- **A number is read back** in front of what is no digit. -/
theorem Numeral.read_toDigits {f : Numeral} {n : Nat} {cs : List Char} (hradix : 1 < f.radix)
    (hradix' : f.radix ≤ 16) (hwidth : ∀ w ∈ f.width, (Nat.toDigits f.radix n).length ≤ w)
    (hbound : n < f.bound) (hcs : ∀ c ∈ cs.head?, f.radix ≤ digitValue c) :
    f.read (Nat.toDigits f.radix n ++ cs) = some (n, cs) := by
  have hrest : cs.takeWhile (digitValue · < f.radix) = [] := by
    cases cs with
    | nil => rfl
    | cons c cs =>
      have hc := hcs c rfl
      simp [hc]
  have hdigits : (Nat.toDigits f.radix n ++ cs).takeWhile (digitValue · < f.radix) =
      Nat.toDigits f.radix n := by
    rw [List.takeWhile_append_of_pos, hrest, List.append_nil]
    intro c hc
    exact decide_eq_true (digitValue_lt_of_mem_toDigits hradix hradix' hc)
  have hwide : f.width.any (· < (Nat.toDigits f.radix n).length) = false := by
    cases hw : f.width with
    | none => rfl
    | some w => simpa using hwidth w hw
  have hfront : ¬ (!f.padded ∧ 1 < (Nat.toDigits f.radix n).length ∧
      (Nat.toDigits f.radix n).head? = some '0') := by
    rintro ⟨-, hlong, hzero⟩
    rcases Nat.eq_zero_or_pos n with rfl | hn
    · rw [Nat.toDigits_of_lt_base (by omega)] at hlong
      exact absurd hlong (by simp)
    · exact head?_toDigits_ne hradix hradix' hn hzero
  unfold Numeral.read
  simp only [hdigits, foldl_toDigits hradix hradix']
  rw [if_neg (by simp [hwide, Nat.toDigits_ne_nil]), if_neg hfront, if_neg (by omega),
    List.drop_left]

/-! ## 2. IPv4 -/

theorem after_cons (c : Char) (cs : List Char) : after c (c :: cs) = some cs := by
  rw [after, if_pos rfl]

theorem read_octet (b : UInt8) {cs : List Char} (hcs : ∀ c ∈ cs.head?, 10 ≤ digitValue c) :
    Numeral.octet.read (Nat.toDigits 10 b.toNat ++ cs) = some (b.toNat, cs) := by
  have hb := b.toNat_lt
  refine Numeral.read_toDigits (f := .octet) (by decide) (by decide) ?_ hb hcs
  rintro w ⟨⟩
  exact (Nat.length_toDigits_le_iff (by decide) (by decide)).mpr (Nat.lt_of_lt_of_le hb (by decide))

theorem IPv4.toList_text {a b c d : UInt8} (h : [a, b, c, d].length = 4) :
    (IPv4.text ⟨[a, b, c, d], h⟩).toList =
      Nat.toDigits 10 a.toNat ++ '.' :: (Nat.toDigits 10 b.toNat ++
        '.' :: (Nat.toDigits 10 c.toNat ++ '.' :: Nat.toDigits 10 d.toNat)) := by
  simp [IPv4.text]

/-- **An IPv4 address is read back.** -/
theorem readIPv4_text (ip : IPv4) {cs : List Char} (hcs : ∀ c ∈ cs.head?, 10 ≤ digitValue c) :
    readIPv4 (ip.text.toList ++ cs) = some (ip, cs) := by
  obtain ⟨bytes, hlength⟩ := ip
  match bytes, hlength with
  | [a, b, c, d], hlength =>
    have hdot : ∀ (cs : List Char), ∀ c ∈ ('.' :: cs).head?, 10 ≤ digitValue c := by
      rintro cs c ⟨⟩
      decide
    rw [IPv4.toList_text]
    simp only [List.append_assoc, List.cons_append, readIPv4, read_octet _ (hdot _),
      read_octet _ hcs, after_cons, Option.bind_eq_bind, Option.bind_some, Option.pure_def,
      UInt8.ofNat_toNat]

theorem read_port (port : UInt16) :
    readPort (':' :: Nat.toDigits 10 port.toNat) = some (port, []) := by
  have hread : Numeral.port.read (Nat.toDigits 10 port.toNat ++ []) = some (port.toNat, []) :=
    Numeral.read_toDigits (f := .port) (by decide) (by decide) (by rintro w ⟨⟩) port.toNat_lt
      (by simp)
  rw [List.append_nil] at hread
  simp only [readPort, after_cons, hread, Option.bind_eq_bind, Option.bind_some, Option.pure_def,
    UInt16.ofNat_toNat]

/-! ## 3. IPv6 -/

/-- Up to a first colon there are only hexadecimal digits. -/
def MeetsColon (cs : List Char) : Prop :=
  ∃ digits rest, cs = digits ++ ':' :: rest ∧ ∀ c ∈ digits, digitValue c < 16

theorem meetsColon_cons (cs : List Char) : MeetsColon (':' :: cs) :=
  ⟨[], cs, rfl, by simp⟩

theorem MeetsColon.append {cs : List Char} (h : MeetsColon cs) (more : List Char) :
    MeetsColon (cs ++ more) := by
  obtain ⟨digits, rest, rfl, hdigits⟩ := h
  exact ⟨digits, rest ++ more, by simp, hdigits⟩

theorem MeetsColon.dropWhile {cs : List Char} (h : MeetsColon cs) {p : Char → Bool}
    (hp : p ':' = false) : MeetsColon (cs.dropWhile p) := by
  obtain ⟨digits, rest, rfl, hdigits⟩ := h
  rw [List.dropWhile_append, List.dropWhile_cons_of_neg (by simp [hp])]
  split
  · exact meetsColon_cons rest
  · exact ⟨digits.dropWhile p, rest, rfl,
      fun c hc => hdigits c ((List.dropWhile_sublist p).subset hc)⟩

theorem MeetsColon.after_eq_none {cs : List Char} (h : MeetsColon cs) {c : Char} (hc : c ≠ ':')
    (hdigit : 16 ≤ digitValue c) : after c cs = none := by
  obtain ⟨digits, rest, rfl, hdigits⟩ := h
  cases digits with
  | nil => rw [List.nil_append, after, if_neg (Ne.symm hc)]
  | cons d digits =>
    have hd : d ≠ c := by
      rintro rfl
      exact absurd (hdigits d List.mem_cons_self) (by omega)
    rw [List.cons_append, after, if_neg hd]

theorem Numeral.eq_dropWhile_of_read {f : Numeral} {cs rest : List Char} {n : Nat}
    (h : f.read cs = some (n, rest)) : rest = cs.dropWhile (digitValue · < f.radix) := by
  unfold Numeral.read at h
  dsimp only at h
  split at h
  · cases h
  split at h
  · cases h
  split at h
  · cases h
  · have hdrop : (cs.takeWhile (digitValue · < f.radix) ++
        cs.dropWhile (digitValue · < f.radix)).drop
          (cs.takeWhile (digitValue · < f.radix)).length =
        cs.dropWhile (digitValue · < f.radix) := List.drop_left
    rw [List.takeWhile_append_dropWhile] at hdrop
    rw [← (Prod.mk.inj (Option.some.inj h)).2, hdrop]

/-- Such a text is no socket address: a dot would have to come first, or a bracket. -/
theorem ofText?_of_meetsColon {text : String} (h : MeetsColon text.toList) :
    SocketAddress.ofText? text = none := by
  have hv4 : readSocketV4 text.toList = none := by
    rw [readSocketV4, readIPv4]
    cases hread : Numeral.octet.read text.toList with
    | none => rfl
    | some result =>
      obtain ⟨n, rest⟩ := result
      have hdot : after '.' rest = none := by
        rw [Numeral.eq_dropWhile_of_read hread]
        exact (h.dropWhile (by decide)).after_eq_none (by decide) (by decide)
      simp [hdot]
  have hv6 : readSocketV6 text.toList = none := by
    simp [readSocketV6, h.after_eq_none (show '[' ≠ ':' by decide) (by decide)]
  simp [SocketAddress.ofText?, hv4, hv6]

/-- The first group, if there is one, and what separates it from what follows. -/
theorem meetsColon_groupsText (gs : List UInt16) (cs : List Char) :
    MeetsColon ((groupsText gs).toList ++ ':' :: cs) := by
  cases gs with
  | nil => exact meetsColon_cons cs
  | cons g gs =>
    have hdigits : ∀ c ∈ Nat.toDigits 16 g.toNat, digitValue c < 16 := fun c hc =>
      digitValue_lt_of_mem_toDigits (by decide) (by decide) hc
    cases gs with
    | nil => exact ⟨Nat.toDigits 16 g.toNat, cs, by simp [groupsText], hdigits⟩
    | cons g' gs =>
      exact ⟨Nat.toDigits 16 g.toNat, (groupsText (g' :: gs)).toList ++ ':' :: cs,
        by simp [groupsText], hdigits⟩

theorem meetsColon_text (ip : IPv6) (cs : List Char) : MeetsColon (ip.text.toList ++ ':' :: cs) := by
  unfold IPv6.text
  split
  · rw [String.toList_append, List.append_assoc]
    exact (meetsColon_cons _).append _
  · dsimp only
    split
    · exact meetsColon_groupsText ip.groups cs
    · have hfront := meetsColon_groupsText (ip.groups.take (longestRun ip.groups).1) [':']
      simpa [String.toList_append] using hfront.append _

end Net

/-! ## 4. Datacenters -/

open Net

theorem Datacenter.toList_addr (dc : Datacenter) :
    dc.addr.toList = dc.ip.toList ++ ':' :: Nat.toDigits 10 dc.port.toNat := by
  have htext : dc.addr = dc.ip ++ ":" ++ toString dc.port := rfl
  have hport : (toString dc.port).toList = Nat.toDigits 10 dc.port.toNat := Nat.toList_repr
  simp [htext, hport]

/-- The address of a datacenter, as a socket address. -/
theorem Datacenter.ofText?_addr {dc : Datacenter} {ip : IpAddress} (h : dc.ip = ip.text) :
    SocketAddress.ofText? dc.addr =
      match ip with
      | .v4 ip => some (.v4 ip dc.port)
      | .v6 _ => none := by
  cases ip with
  | v4 ip =>
    have hread : readSocketV4 dc.addr.toList = some (.v4 ip dc.port, []) := by
      have hcolon : ∀ c ∈ (':' :: Nat.toDigits 10 dc.port.toNat).head?, 10 ≤ digitValue c := by
        rintro c ⟨⟩
        decide
      rw [Datacenter.toList_addr, h, readSocketV4]
      simp [IpAddress.text, readIPv4_text ip hcolon, read_port]
    simp [SocketAddress.ofText?, hread]
  | v6 ip =>
    refine ofText?_of_meetsColon ?_
    rw [Datacenter.toList_addr, h]
    exact meetsColon_text ip _

/-- **The address of a server is read back exactly if it is an IPv4 address.**  The datacenter is
always there, but the address of an IPv6 one is none that anything could connect to. -/
theorem Config.addr_round_trips_iff {c : Config} {a : SocketAddress}
    (h : SocketAddress.ofText? c.serverAddr = some a) :
    ∃ dc, c.datacenter? = some dc ∧
      (SocketAddress.ofText? dc.addr = some a ↔ ∃ ip port, a = .v4 ip port) ∧
      (SocketAddress.ofText? dc.addr = none ↔ ∃ ip scope port, a = .v6 ip scope port) := by
  refine ⟨⟨c.dcId, a.ip.text, a.port⟩, by rw [Config.datacenter?, h]; rfl, ?_⟩
  rw [Datacenter.ofText?_addr rfl]
  cases a with
  | v4 ip port => simp [SocketAddress.ip, SocketAddress.port]
  | v6 ip scope port => simp [SocketAddress.ip]

/-- The server that is the default. -/
theorem Config.addr_round_trips_default :
    let a : SocketAddress := .v4 ⟨[149, 154, 167, 50], rfl⟩ 443
    SocketAddress.ofText? ({} : Config).serverAddr = some a ∧
      ∃ dc, ({} : Config).datacenter? = some dc ∧ SocketAddress.ofText? dc.addr = some a := by
  intro a
  have ha : SocketAddress.ofText? ({} : Config).serverAddr = some a := by decide +kernel
  obtain ⟨dc, hdc, hv4, -⟩ := Config.addr_round_trips_iff ha
  exact ⟨ha, dc, hdc, hv4.mpr ⟨_, _, rfl⟩⟩

/-- The brackets of an IPv6 address are lost. -/
theorem Config.addr_without_brackets :
    let c : Config := { serverAddr := "[::1]:443" }
    SocketAddress.ofText? c.serverAddr =
        some (.v6 ⟨[0, 0, 0, 0, 0, 0, 0, 1], rfl⟩ 0 443) ∧
      ∃ dc, c.datacenter? = some dc ∧ dc.addr = "::1:443" ∧
        SocketAddress.ofText? dc.addr = none :=
  ⟨by decide +kernel, ⟨2, "::1", 443⟩, by decide +kernel, by decide +kernel, by decide +kernel⟩

end Mtproto
