import OncRpc.Bind.IpText

/-!
# Universal addresses

rpcbind writes the address of a service as the IP address and the two bytes of the port, with dots
between them.  An IP address may have dots in it, so the text is taken apart from the right.
-/

namespace OncRpc

/-! ## Reading universal addresses -/

/-- What stands before and behind the last dot. -/
def rsplitDot : List Char → Option (List Char × List Char)
  | [] => none
  | c :: rest =>
    match rsplitDot rest with
    | some (front, back) => some (c :: front, back)
    | none => if c = '.' then some ([], rest) else none

/-- A text taken apart from the right at no more than two dots: what is taken first comes first. -/
def rsplitDots (text : List Char) : List (List Char) :=
  match rsplitDot text with
  | none => [text]
  | some (front, low) =>
    match rsplitDot front with
    | none => [low, front]
    | some (host, high) => [low, high, host]

/-- A text without the plus sign it may start with. -/
def stripPlus : List Char → List Char
  | '+' :: digits => digits
  | digits => digits

/-- `u8::from_str`: digits, and a plus sign before them if there is one. -/
def parseU8 (text : List Char) : Option ℕ :=
  if stripPlus text = [] then none else (digitsValue 10 (stripPlus text)).filter (· < 2 ^ 8)

/-- The address of a service at an IP address. -/
def SocketAddr.new (ip : IpAddr) (port : UInt16) : SocketAddr :=
  match ip with
  | .v4 address => .v4 address port
  | .v6 address => .v6 address port 0 0

/-- The address of a service, of a text as rpcbind writes it. -/
def parseUniversalAddr (value : String) : Except BindError SocketAddr :=
  match rsplitDots value.toList with
  | [low, high, host] =>
    match parseU8 low, parseU8 high, IpAddr.fromStr host with
    | some low, some high, some ip => .ok (.new ip (UInt16.ofNat (high * 2 ^ 8 + low)))
    | _, _, _ => .error (.invalidUniversalAddress value)
  | _ => .error (.invalidUniversalAddress value)

example : parseUniversalAddr "::ffff:10.0.0.1.8.1" = .ok (.v6 0xffff0a000001 2049 0 0) := by
  decide +kernel

/-! ## Taking a text apart -/

/-- Text without a dot is not split. -/
theorem rsplitDot_of_notMem {text : List Char} (h : '.' ∉ text) : rsplitDot text = none := by
  induction text with
  | nil => rfl
  | cons c text ih =>
    have hrest : '.' ∉ text := fun hmem => h (List.mem_cons_of_mem c hmem)
    have hne : c ≠ '.' := fun heq => h (List.mem_cons.mpr (.inl heq.symm))
    rw [rsplitDot, ih hrest]
    exact if_neg hne

/-- Text is split at its last dot. -/
theorem rsplitDot_append {back : List Char} (h : '.' ∉ back) (front : List Char) :
    rsplitDot (front ++ '.' :: back) = some (front, back) := by
  induction front with
  | nil =>
    rw [List.nil_append, rsplitDot, rsplitDot_of_notMem h]
    rfl
  | cons c front ih => rw [List.cons_append, rsplitDot, ih]

/-- A number is written without a dot. -/
theorem dot_notMem_toDigits (n : ℕ) : '.' ∉ Nat.toDigits 10 n := by
  intro hmem
  have hdigit := Nat.isDigit_of_mem_toDigits (by decide) (by decide) hmem
  exact absurd hdigit (by decide)

/-- An address is split into its port's bytes and its host. -/
theorem rsplitDots_digits (host : List Char) (high low : ℕ) :
    rsplitDots (host ++ '.' :: (Nat.toDigits 10 high ++ '.' :: Nat.toDigits 10 low)) =
      [Nat.toDigits 10 low, Nat.toDigits 10 high, host] := by
  have hsplit : host ++ '.' :: (Nat.toDigits 10 high ++ '.' :: Nat.toDigits 10 low) =
      (host ++ '.' :: Nat.toDigits 10 high) ++ '.' :: Nat.toDigits 10 low := by
    rw [List.append_assoc, List.cons_append]
  rw [hsplit, rsplitDots, rsplitDot_append (dot_notMem_toDigits low)]
  dsimp only
  rw [rsplitDot_append (dot_notMem_toDigits high)]

/-- A byte in decimal is read back. -/
theorem parseU8_toDigits {n : ℕ} (h : n < 2 ^ 8) : parseU8 (Nat.toDigits 10 n) = some n := by
  have hsign : stripPlus (Nat.toDigits 10 n) = Nat.toDigits 10 n := by
    unfold stripPlus
    split
    · next digits hplus =>
      have hmem : '+' ∈ Nat.toDigits 10 n := by
        rw [hplus]
        exact List.mem_cons_self
      have hdigit := Nat.isDigit_of_mem_toDigits (by decide) (by decide) hmem
      exact absurd hdigit (by decide)
    · rfl
  rw [parseU8, hsign, if_neg Nat.toDigits_ne_nil, digitsValue_toDigits (by decide) (by decide)]
  exact Option.filter_eq_some_iff.mpr ⟨rfl, decide_eq_true h⟩

/-! ## The result -/

/-- An IP address that is written is taken back. -/
theorem IpAddr.fromStr_text (ip : IpAddr) : IpAddr.fromStr ip.text.toList = some ip := by
  cases ip with
  | v4 address =>
    have hread := readIpv4Addr_text address (noDigit_nil 10)
    rw [List.append_nil] at hread
    rw [IpAddr.fromStr, IpAddr.text, readIpAddr, hread]
  | v6 address =>
    rw [IpAddr.fromStr, IpAddr.text, readIpAddr, readIpv4Addr_ipv6Text, readIpv6Addr_text]
    rfl

/-- The text of an address is its host and the two bytes of its port. -/
theorem toList_universalAddr (ip : IpAddr) (port : UInt16) :
    (universalAddr (.new ip port)).toList = ip.text.toList ++ '.' ::
      (Nat.toDigits 10 (port.toNat / 2 ^ 8) ++ '.' :: Nat.toDigits 10 (port.toNat % 2 ^ 8)) := by
  have htext (n : ℕ) : (toString n).toList = Nat.toDigits 10 n := by
    rw [Nat.toString_eq_ofList_toDigits, String.toList_ofList]
  have huniversal : universalAddr (.new ip port) = ip.text ++ "." ++
      toString (port.toNat / 2 ^ 8) ++
      "." ++ toString (port.toNat % 2 ^ 8) := by
    cases ip <;> rfl
  rw [huniversal]
  simp only [String.toList_append, htext, List.append_assoc]
  rfl

/-- A written address is read back. -/
theorem parseUniversalAddr_universalAddr (ip : IpAddr) (port : UInt16) :
    parseUniversalAddr (universalAddr (.new ip port)) = .ok (.new ip port) := by
  have hport := port.toNat_lt
  have hhigh : port.toNat / 2 ^ 8 < 2 ^ 8 := by omega
  have hlow : port.toNat % 2 ^ 8 < 2 ^ 8 := Nat.mod_lt _ (by decide)
  rw [parseUniversalAddr, toList_universalAddr, rsplitDots_digits]
  dsimp only
  rw [parseU8_toDigits hlow, parseU8_toDigits hhigh, IpAddr.fromStr_text]
  dsimp only
  rw [Nat.div_add_mod', UInt16.ofNat_toNat]

/-- The address that is read is one of an IP address and a port. -/
theorem exists_new_of_parseUniversalAddr {value : String} {addr : SocketAddr}
    (h : parseUniversalAddr value = .ok addr) : ∃ ip port, addr = .new ip port := by
  unfold parseUniversalAddr at h
  split at h
  · split at h
    · cases h
      exact ⟨_, _, rfl⟩
    · cases h
  · cases h

/-- The address of every service is read back from its text, whatever the IP address and the port;
and whatever text is read as an address, the text written for that address is read as the same
one. -/
theorem universal_addr_round_trip :
    (∀ (address : BitVec 32) (port : UInt16),
      parseUniversalAddr (universalAddr (.v4 address port)) = .ok (.v4 address port)) ∧
    (∀ (address : BitVec 128) (port : UInt16),
      parseUniversalAddr (universalAddr (.v6 address port 0 0)) = .ok (.v6 address port 0 0)) ∧
    ∀ (value : String) (addr : SocketAddr), parseUniversalAddr value = .ok addr →
      parseUniversalAddr (universalAddr addr) = .ok addr := by
  refine ⟨fun address => parseUniversalAddr_universalAddr (.v4 address),
    fun address => parseUniversalAddr_universalAddr (.v6 address), fun value addr h => ?_⟩
  obtain ⟨ip, port, rfl⟩ := exists_new_of_parseUniversalAddr h
  exact parseUniversalAddr_universalAddr ip port

end OncRpc
