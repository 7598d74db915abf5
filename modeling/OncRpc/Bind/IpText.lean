import OncRpc.Bind.Rpcbind
import OncRpc.Gen.Text
import Mathlib.Data.Nat.Digits.Defs

/-!
# IP addresses as text

The standard library writes addresses as `ipv4Text` and `ipv6Text` do and reads them with a
recursive descent over the characters.  The reader of an IPv4 address takes four numbers with dots
between them.  That of an IPv6 address takes groups of hexadecimal digits with colons between them,
before each of which it tries an IPv4 address in the place of two groups, and, unless it has taken
all eight, two colons and more groups.

`IpAddr.fromStr_text` says that the reader takes back what is written.  For IPv6 this needs that no
group reads as an IPv4 address, and that the groups left out were zeros.
-/

namespace OncRpc

/-- An IP address. -/
inductive IpAddr where
  | v4 (address : BitVec 32)
  | v6 (address : BitVec 128)
  deriving DecidableEq

/-- An address as text. -/
def IpAddr.text : IpAddr → String
  | .v4 address => ipv4Text address
  | .v6 address => ipv6Text address

/-! ## Reading addresses -/

/-- A reader: what it takes off a text and the text behind it.  A reader that takes nothing leaves
the text to the next one. -/
abbrev IpReader (α : Type) : Type := List Char → Option (α × List Char)

/-- Take a character. -/
def readGivenChar (given : Char) : IpReader Unit
  | [] => none
  | c :: rest => if c = given then some ((), rest) else none

/-- Take a separator, unless it is the first time, and what follows it. -/
def readSeparator {α : Type} (sep : Char) (index : ℕ) (inner : IpReader α) :
    IpReader α := fun text =>
  if 0 < index then (readGivenChar sep text).bind fun (_, rest) => inner rest else inner text

/-- Take digits, with the value and the number of those before them. -/
def readDigits (radix maxDigits : ℕ) : ℕ → ℕ → List Char → Option ((ℕ × ℕ) × List Char)
  | result, count, [] => some ((result, count), [])
  | result, count, c :: rest =>
    match toDigit radix c with
    | none => some ((result, count), c :: rest)
    | some digit =>
      if maxDigits < count + 1 then none
      else readDigits radix maxDigits (result * radix + digit) (count + 1) rest

/-- Take a number below a limit. -/
def readNumber (radix maxDigits : ℕ) (allowZeroPrefix : Bool) (limit : ℕ) :
    IpReader ℕ := fun text =>
  match readDigits radix maxDigits 0 0 text with
  | none => none
  | some ((result, count), rest) =>
    if count = 0 then none
    else if allowZeroPrefix = false ∧ text.head? = some '0' ∧ 1 < count then none
    else if limit ≤ result then none
    else some (result, rest)

/-- The address with the given parts. -/
def ipv4OfOctets (a b c d : ℕ) : BitVec 32 :=
  BitVec.ofNat 32 (((a * 2 ^ 8 + b) * 2 ^ 8 + c) * 2 ^ 8 + d)

/-- Take a part of an IPv4 address; one that starts with a zero has no other digit. -/
def readOctet : IpReader ℕ := readNumber 10 3 false (2 ^ 8)

/-- Take an IPv4 address. -/
def readIpv4Addr : IpReader (BitVec 32) := fun text => do
  let (a, text) ← readSeparator '.' 0 readOctet text
  let (b, text) ← readSeparator '.' 1 readOctet text
  let (c, text) ← readSeparator '.' 2 readOctet text
  let (d, text) ← readSeparator '.' 3 readOctet text
  return (ipv4OfOctets a b c d, text)

/-- Take a group of an IPv6 address. -/
def readGroup : IpReader ℕ := readNumber 16 4 true (2 ^ 16)

/-- Take as many groups as there are, but no more than so many, the first of them behind `index`
others; an IPv4 address stands for two groups, and nothing is taken after it.  The flag says whether
there was one. -/
def readGroups : ℕ → ℕ → List Char → (List ℕ × Bool) × List Char
  | 0, _, text => (([], false), text)
  | left + 1, index, text =>
    match if 0 < left then readSeparator ':' index readIpv4Addr text else none with
    | some (address, rest) =>
      (([address.toNat / 2 ^ 16, address.toNat % 2 ^ 16], true), rest)
    | none =>
      match readSeparator ':' index readGroup text with
      | some (group, rest) =>
        let ((groups, ipv4), rest) := readGroups left (index + 1) rest
        ((group :: groups, ipv4), rest)
      | none => (([], false), text)

/-- The address with the given groups. -/
def ipv6OfGroups (groups : List ℕ) : BitVec 128 :=
  BitVec.ofNat 128 (groups.foldl (fun value group => value * 2 ^ 16 + group) 0)

/-- Take an IPv6 address. -/
def readIpv6Addr : IpReader (BitVec 128) := fun text =>
  let ((head, ipv4), rest) := readGroups 8 0 text
  if head.length = 8 then some (ipv6OfGroups head, rest)
  else if ipv4 then none
  else do
    let (_, rest) ← readGivenChar ':' rest
    let (_, rest) ← readGivenChar ':' rest
    let ((tail, _), rest) := readGroups (8 - (head.length + 1)) 0 rest
    let zeros := List.replicate (8 - head.length - tail.length) 0
    return (ipv6OfGroups (head ++ zeros ++ tail), rest)

/-- Take an IP address. -/
def readIpAddr : IpReader IpAddr := fun text =>
  match readIpv4Addr text with
  | some (address, rest) => some (.v4 address, rest)
  | none => (readIpv6Addr text).map fun (address, rest) => (.v6 address, rest)

/-- The address that a whole text is. -/
def IpAddr.fromStr (text : List Char) : Option IpAddr :=
  match readIpAddr text with
  | some (address, []) => some address
  | _ => none

example : IpAddr.fromStr "::ffff:10.0.0.1".toList = some (.v6 0xffff0a000001) := by decide +kernel

example : IpAddr.fromStr "10.0.0.01".toList = none := by decide +kernel

/-! ## Numbers -/

/-- The text does not go on with a digit. -/
def NoDigit (radix : ℕ) (text : List Char) : Prop := ∀ c ∈ text.head?, toDigit radix c = none

/-- Reading digits stops where no digit follows. -/
theorem readDigits_stop {radix maxDigits result count : ℕ} {text : List Char}
    (h : NoDigit radix text) :
    readDigits radix maxDigits result count text = some ((result, count), text) := by
  rcases text with _ | ⟨c, rest⟩
  · rfl
  · rw [readDigits, h c rfl]

/-- Digits are taken if there are not too many. -/
theorem readDigits_append {radix maxDigits result count value : ℕ} {digits rest : List Char}
    (hvalue : digits.foldlM (fun value c => (toDigit radix c).map (value * radix + ·)) result =
      some value)
    (hcount : count + digits.length ≤ maxDigits) :
    readDigits radix maxDigits result count (digits ++ rest) =
      readDigits radix maxDigits value (count + digits.length) rest := by
  induction digits generalizing result count with
  | nil =>
    obtain rfl : result = value := Option.some.inj hvalue
    rfl
  | cons c digits ih =>
    rw [List.foldlM_cons] at hvalue
    obtain ⟨next, hnext, hvalue⟩ := Option.bind_eq_some_iff.mp hvalue
    obtain ⟨digit, hdigit, rfl⟩ := Option.map_eq_some_iff.mp hnext
    rw [List.length_cons] at hcount
    have hroom : ¬ maxDigits < count + 1 := by omega
    rw [List.cons_append, readDigits, hdigit]
    dsimp only
    rw [if_neg hroom, ih hvalue (by omega), List.length_cons, Nat.add_assoc,
      Nat.add_comm 1 digits.length]

/-- A number that is written is taken back. -/
theorem readNumber_toDigits {radix maxDigits limit n : ℕ} (allowZeroPrefix : Bool)
    (hone : 1 < radix) (hradix : radix ≤ 16) (hmax : 0 < maxDigits)
    (hdigits : n < radix ^ maxDigits) (hlimit : n < limit) {rest : List Char}
    (hrest : NoDigit radix rest) :
    readNumber radix maxDigits allowZeroPrefix limit (Nat.toDigits radix n ++ rest) =
      some (n, rest) := by
  have hlength : (Nat.toDigits radix n).length ≤ maxDigits :=
    Nat.toDigits_length radix n maxDigits hmax hdigits
  have hpos : 0 < (Nat.toDigits radix n).length := Nat.length_toDigits_pos
  have hread : readDigits radix maxDigits 0 0 (Nat.toDigits radix n ++ rest) =
      some ((n, (Nat.toDigits radix n).length), rest) := by
    rw [readDigits_append (digitsValue_toDigits hone hradix n) (by omega), readDigits_stop hrest,
      Nat.zero_add]
  have hzero : ¬ (allowZeroPrefix = false ∧ (Nat.toDigits radix n ++ rest).head? = some '0' ∧
      1 < (Nat.toDigits radix n).length) := by
    rintro ⟨-, hhead, hmore⟩
    rw [List.head?_append_of_ne_nil _ Nat.toDigits_ne_nil] at hhead
    rcases Nat.eq_zero_or_pos n with rfl | hn
    · rw [Nat.toDigits_zero] at hmore
      exact absurd hmore (by simp)
    · exact toDigits_head hone hradix hn hhead
  rw [readNumber, hread]
  dsimp only
  rw [if_neg hpos.ne', if_neg hzero, if_neg (Nat.not_le.mpr hlimit)]

/-- No number is taken where there is no digit. -/
theorem readNumber_of_noDigit {radix maxDigits limit : ℕ} {allowZeroPrefix : Bool}
    {text : List Char} (h : NoDigit radix text) :
    readNumber radix maxDigits allowZeroPrefix limit text = none := by
  rw [readNumber, readDigits_stop h]
  rfl

/-- What reading digits leaves is an end of the text. -/
theorem suffix_of_readDigits {radix maxDigits result count : ℕ} {text rest : List Char}
    {read : ℕ × ℕ} (h : readDigits radix maxDigits result count text = some (read, rest)) :
    rest <:+ text := by
  induction text generalizing result count with
  | nil =>
    cases h
    exact List.suffix_rfl
  | cons c text ih =>
    rw [readDigits] at h
    rcases hdigit : toDigit radix c with _ | digit
    · rw [hdigit] at h
      cases h
      exact List.suffix_rfl
    · rw [hdigit] at h
      dsimp only at h
      split at h
      · cases h
      · exact (ih h).trans (List.suffix_cons c text)

/-- What is left behind a number is the end of the text. -/
theorem suffix_of_readNumber {radix maxDigits limit n : ℕ} {allowZeroPrefix : Bool}
    {text rest : List Char}
    (h : readNumber radix maxDigits allowZeroPrefix limit text = some (n, rest)) :
    rest <:+ text := by
  unfold readNumber at h
  split at h
  · cases h
  · next hread =>
    split at h
    · cases h
    split at h
    · cases h
    split at h
    · cases h
    cases h
    exact suffix_of_readDigits hread

/-- Before the first group there is no separator. -/
theorem readSeparator_zero {α : Type} (sep : Char) (inner : IpReader α) (text : List Char) :
    readSeparator sep 0 inner text = inner text := rfl

/-- Before a later group the separator is read. -/
theorem readSeparator_cons {α : Type} (sep : Char) {index : ℕ} (hindex : 0 < index)
    (inner : IpReader α) (text : List Char) :
    readSeparator sep index inner (sep :: text) = inner text := by
  rw [readSeparator, if_pos hindex, readGivenChar, if_pos rfl]
  rfl

/-! ## IPv4 -/

/-- At the end of the text no digit follows. -/
theorem noDigit_nil (radix : ℕ) : NoDigit radix [] := by
  intro c hc
  cases hc

/-- Where a character that is no digit comes next, no digit follows. -/
theorem noDigit_cons {radix : ℕ} {c : Char} (h : toDigit radix c = none) (rest : List Char) :
    NoDigit radix (c :: rest) := by
  intro x hx
  cases hx
  exact h

/-- An octet in decimal is read back. -/
theorem readOctet_toDigits {n : ℕ} (h : n < 2 ^ 8) {rest : List Char} (hrest : NoDigit 10 rest) :
    readOctet (Nat.toDigits 10 n ++ rest) = some (n, rest) :=
  readNumber_toDigits false (by decide) (by decide) (by decide) (h.trans_le (by decide)) h hrest

/-- Four parts with dots between them. -/
def dotted (a b c d : ℕ) : List Char :=
  Nat.toDigits 10 a ++ '.' :: (Nat.toDigits 10 b ++ '.' :: (Nat.toDigits 10 c ++ '.' ::
    Nat.toDigits 10 d))

/-- Four octets with dots are read back. -/
theorem readIpv4Addr_dotted {a b c d : ℕ} (ha : a < 2 ^ 8) (hb : b < 2 ^ 8) (hc : c < 2 ^ 8)
    (hd : d < 2 ^ 8) {rest : List Char} (hrest : NoDigit 10 rest) :
    readIpv4Addr (dotted a b c d ++ rest) = some (ipv4OfOctets a b c d, rest) := by
  have hdot (text : List Char) : NoDigit 10 ('.' :: text) := noDigit_cons (by decide) text
  have hsep {index n : ℕ} (hindex : 0 < index) (hn : n < 2 ^ 8) {text : List Char}
      (htext : NoDigit 10 text) : readSeparator '.' index readOctet
        ('.' :: (Nat.toDigits 10 n ++ text)) = some (n, text) := by
    rw [readSeparator_cons '.' hindex]
    exact readOctet_toDigits hn htext
  have hfirst {text : List Char} : readSeparator '.' 0 readOctet
      (Nat.toDigits 10 a ++ '.' :: text) = some (a, '.' :: text) :=
    readOctet_toDigits ha (hdot _)
  unfold readIpv4Addr dotted
  simp only [List.append_assoc, List.cons_append]
  rw [hfirst, Option.bind_eq_bind, Option.bind_some]
  dsimp only
  rw [hsep (by decide) hb (hdot _), Option.bind_some]
  dsimp only
  rw [hsep (by decide) hc (hdot _), Option.bind_some]
  dsimp only
  rw [hsep (by decide) hd hrest, Option.bind_some]
  rfl

/-- The text of an IPv4 address is its octets with dots. -/
theorem toList_ipv4Text (address : BitVec 32) :
    (ipv4Text address).toList = dotted (address.toNat / 2 ^ 24 % 2 ^ 8)
      (address.toNat / 2 ^ 16 % 2 ^ 8) (address.toNat / 2 ^ 8 % 2 ^ 8) (address.toNat % 2 ^ 8) := by
  have hparts : (List.range 4).map (fun i => toString (address.toNat / 2 ^ (24 - 8 * i) % 2 ^ 8)) =
      [toString (address.toNat / 2 ^ 24 % 2 ^ 8), toString (address.toNat / 2 ^ 16 % 2 ^ 8),
        toString (address.toNat / 2 ^ 8 % 2 ^ 8), toString (address.toNat / 2 ^ 0 % 2 ^ 8)] := rfl
  have htext (n : ℕ) : (toString n).toList = Nat.toDigits 10 n := by
    rw [Nat.toString_eq_ofList_toDigits, String.toList_ofList]
  rw [ipv4Text, hparts, String.toList_intercalate]
  simp only [List.map_cons, List.map_nil, htext, Nat.pow_zero, Nat.div_one]
  simp [dotted, List.intercalate]

/-- An IPv4 address is made up of its octets. -/
theorem ipv4OfOctets_eq (address : BitVec 32) :
    ipv4OfOctets (address.toNat / 2 ^ 24 % 2 ^ 8) (address.toNat / 2 ^ 16 % 2 ^ 8)
      (address.toNat / 2 ^ 8 % 2 ^ 8) (address.toNat % 2 ^ 8) = address := by
  have hlt := address.isLt
  apply BitVec.eq_of_toNat_eq
  rw [ipv4OfOctets, BitVec.toNat_ofNat]
  omega

/-- An IPv4 address that is written is taken back. -/
theorem readIpv4Addr_text (address : BitVec 32) {rest : List Char} (hrest : NoDigit 10 rest) :
    readIpv4Addr ((ipv4Text address).toList ++ rest) = some (address, rest) := by
  rw [toList_ipv4Text, readIpv4Addr_dotted (Nat.mod_lt _ (by decide)) (Nat.mod_lt _ (by decide))
    (Nat.mod_lt _ (by decide)) (Nat.mod_lt _ (by decide)) hrest, ipv4OfOctets_eq]

/-- Without a first octet there is no IPv4 address. -/
theorem readIpv4Addr_of_readOctet {text : List Char} (h : readOctet text = none) :
    readIpv4Addr text = none := by
  rw [readIpv4Addr, readSeparator_zero, h]
  rfl

/-- There is no IPv4 address where there is no digit. -/
theorem readIpv4Addr_of_noDigit {text : List Char} (h : NoDigit 10 text) :
    readIpv4Addr text = none :=
  readIpv4Addr_of_readOctet (readNumber_of_noDigit h)

/-- There is no IPv4 address without a dot. -/
theorem readIpv4Addr_of_no_dot {text : List Char} (h : '.' ∉ text) : readIpv4Addr text = none := by
  rcases hfirst : readOctet text with _ | ⟨n, rest⟩
  · exact readIpv4Addr_of_readOctet hfirst
  · have hrest : '.' ∉ rest := fun hmem => h ((suffix_of_readNumber hfirst).subset hmem)
    have hdot : readSeparator '.' 1 readOctet rest = none := by
      rcases rest with _ | ⟨c, rest⟩
      · rfl
      · have hne : c ≠ '.' := fun heq => hrest (heq ▸ List.mem_cons_self)
        rw [readSeparator, if_pos Nat.one_pos, readGivenChar, if_neg hne]
        rfl
    rw [readIpv4Addr, readSeparator_zero, hfirst, Option.bind_eq_bind, Option.bind_some]
    dsimp only
    rw [hdot]
    rfl

/-! ## IPv6 -/

/-- Every character of a number is a digit. -/
theorem isSome_toDigit_of_mem {n : ℕ} {c : Char} (h : c ∈ Nat.toDigits 16 n) :
    (toDigit 16 c).isSome := by
  have hdigits {digits : List Char} {start value : ℕ}
      (hvalue : digits.foldlM (fun value c => (toDigit 16 c).map (value * 16 + ·))
        start = some value)
      (hmem : c ∈ digits) : (toDigit 16 c).isSome := by
    induction digits generalizing start with
    | nil => cases hmem
    | cons first digits ih =>
      rw [List.foldlM_cons] at hvalue
      obtain ⟨next, hnext, hvalue⟩ := Option.bind_eq_some_iff.mp hvalue
      rcases List.mem_cons.mp hmem with rfl | hmem
      · obtain ⟨digit, hdigit, -⟩ := Option.map_eq_some_iff.mp hnext
        rw [hdigit]
        rfl
      · exact ih hvalue hmem
  exact hdigits (digitsValue_toDigits (by decide) (by decide) n) h

/-- Groups with colons in front of them, but not in front of the first. -/
def groupsFrom : ℕ → List ℕ → List Char
  | _, [] => []
  | index, group :: groups =>
    (if 0 < index then [':'] else []) ++ (Nat.toDigits 16 group ++ groupsFrom (index + 1) groups)

/-- The groups of an IPv6 address are written without a dot. -/
theorem dot_notMem_groupsFrom (index : ℕ) (groups : List ℕ) : '.' ∉ groupsFrom index groups := by
  induction groups generalizing index with
  | nil => exact List.not_mem_nil
  | cons group groups ih =>
    rw [groupsFrom]
    intro hmem
    rcases List.mem_append.mp hmem with hmem | hmem
    · split at hmem
      · exact absurd (List.mem_singleton.mp hmem) (by decide)
      · cases hmem
    rcases List.mem_append.mp hmem with hmem | hmem
    · exact absurd (isSome_toDigit_of_mem hmem) (by decide)
    · exact ih _ hmem

/-- The text of segments is their groups with colons. -/
theorem toList_segmentsText (groups : List ℕ) :
    (segmentsText groups).toList = groupsFrom 0 groups := by
  have hrest (groups : List ℕ) (index : ℕ) : groupsFrom (index + 1) groups =
      (groups.map fun group => ':' :: Nat.toDigits 16 group).flatten := by
    induction groups generalizing index with
    | nil => rfl
    | cons group groups ih =>
      rw [groupsFrom, if_pos (Nat.succ_pos index), ih]
      rfl
  have hjoin (first : List Char) (groups : List ℕ) :
      [':'].intercalate (first :: groups.map fun group => Nat.toDigits 16 group) =
        first ++ (groups.map fun group => ':' :: Nat.toDigits 16 group).flatten := by
    induction groups generalizing first with
    | nil => simp [List.intercalate]
    | cons group groups ih =>
      rw [List.map_cons, List.intercalate_cons_cons, ih]
      simp
  rcases groups with _ | ⟨group, groups⟩
  · rfl
  · rw [groupsFrom, hrest, ← hjoin, segmentsText, String.toList_intercalate, List.map_map]
    have hletters : (String.toList ∘ fun group => String.ofList (Nat.toDigits 16 group)) =
        fun group => Nat.toDigits 16 group := by
      funext n
      exact String.toList_ofList
    rw [hletters]
    rfl

/-- A group in hexadecimal is read back. -/
theorem readGroup_toDigits {n : ℕ} (h : n < 2 ^ 16) {rest : List Char} (hrest : NoDigit 16 rest) :
    readGroup (Nat.toDigits 16 n ++ rest) = some (n, rest) :=
  readNumber_toDigits true (by decide) (by decide) (by decide) (h.trans_le (by decide)) h hrest

/-- No group follows. -/
structure NoGroup (text : List Char) : Prop where
  noDigit : NoDigit 16 text
  no_dot : '.' ∉ text
  no_group : ∀ index, readSeparator ':' index readGroup text = none

/-- At the end of the text no group follows. -/
theorem noGroup_nil : NoGroup [] where
  noDigit := noDigit_nil 16
  no_dot := List.not_mem_nil
  no_group := fun index => by
    rw [readSeparator]
    split
    · rfl
    · exact readNumber_of_noDigit (noDigit_nil 16)

/-- Where two colons come next, no group follows. -/
theorem noGroup_colons {text : List Char} (h : '.' ∉ text) : NoGroup (':' :: ':' :: text) where
  noDigit := noDigit_cons (by decide) _
  no_dot := by
    intro hmem
    rcases List.mem_cons.mp hmem with hmem | hmem
    · exact absurd hmem (by decide)
    rcases List.mem_cons.mp hmem with hmem | hmem
    · exact absurd hmem (by decide)
    · exact h hmem
  no_group := fun index => by
    have hnone (text : List Char) : readGroup (':' :: text) = none :=
      readNumber_of_noDigit (noDigit_cons (by decide) text)
    rw [readSeparator]
    split
    · exact hnone text
    · exact hnone (':' :: text)

/-- No IPv4 address follows where there is no dot. -/
theorem no_ipv4 {text : List Char} (h : '.' ∉ text) (left index : ℕ) :
    (if 0 < left then readSeparator ':' index readIpv4Addr text else none) = none := by
  split
  · rw [readSeparator]
    split
    · rcases text with _ | ⟨c, rest⟩
      · rfl
      · rw [readGivenChar]
        split
        · exact readIpv4Addr_of_no_dot fun hmem => h (List.mem_cons_of_mem c hmem)
        · rfl
    · exact readIpv4Addr_of_no_dot h
  · rfl

/-- Groups that are written are taken back: one after the other, until none follows. -/
theorem readGroups_groupsFrom {groups : List ℕ} (hgroups : ∀ group ∈ groups, group < 2 ^ 16)
    {left : ℕ} (hleft : groups.length ≤ left) {rest : List Char} (hrest : NoGroup rest)
    (index : ℕ) :
    readGroups left index (groupsFrom index groups ++ rest) = ((groups, false), rest) := by
  induction groups generalizing left index with
  | nil =>
    rcases left with _ | left
    · rfl
    · rw [groupsFrom, List.nil_append, readGroups, no_ipv4 hrest.no_dot, hrest.no_group]
  | cons group groups ih =>
    obtain ⟨left, rfl⟩ := Nat.exists_eq_add_of_le' (Nat.one_le_of_lt hleft)
    obtain ⟨hgroup, hgroups⟩ := List.forall_mem_cons.mp hgroups
    have hdot : '.' ∉ groupsFrom index (group :: groups) ++ rest := fun hmem =>
      (List.mem_append.mp hmem).elim (dot_notMem_groupsFrom _ _) hrest.no_dot
    have hnext : NoDigit 16 (groupsFrom (index + 1) groups ++ rest) := by
      rcases groups with _ | ⟨other, groups⟩
      · exact hrest.noDigit
      · rw [groupsFrom, if_pos (Nat.succ_pos index)]
        exact noDigit_cons (by decide) _
    have hread : readSeparator ':' index readGroup (groupsFrom index (group :: groups) ++ rest) =
        some (group, groupsFrom (index + 1) groups ++ rest) := by
      rw [groupsFrom, readSeparator]
      by_cases hindex : 0 < index
      · rw [if_pos hindex, if_pos hindex, List.append_assoc, List.append_assoc]
        exact readGroup_toDigits hgroup hnext
      · rw [if_neg hindex, if_neg hindex, List.append_assoc, List.append_assoc]
        exact readGroup_toDigits hgroup hnext
    rw [readGroups, no_ipv4 hdot, hread]
    dsimp only
    rw [ih hgroups (by simpa using hleft)]

/-! ### The groups left out -/

/-- The stretch is one of zeros. -/
structure ZeroSpan.Zeros (zeros : ZeroSpan) (segments : List ℕ) : Prop where
  le : zeros.start + zeros.length ≤ segments.length
  zero : ∀ i, zeros.start ≤ i → i < zeros.start + zeros.length → segments[i]? = some 0

/-- The empty span has only zeros. -/
theorem ZeroSpan.zeros_empty (segments : List ℕ) : ZeroSpan.Zeros ⟨0, 0⟩ segments where
  le := Nat.zero_le _
  zero := fun i _ hlt => absurd hlt (Nat.not_lt_zero i)

/-- A span of zeros stays one when more segments follow. -/
theorem ZeroSpan.Zeros.append {zeros : ZeroSpan} {front : List ℕ} (h : zeros.Zeros front)
    (back : List ℕ) : zeros.Zeros (front ++ back) where
  le := by
    rw [List.length_append]
    exact h.le.trans (Nat.le_add_right _ _)
  zero := fun i hstart hend => by
    rw [List.getElem?_append_left (hend.trans_le h.le)]
    exact h.zero i hstart hend

/-- The search for the longest stretch of zeros keeps two stretches of zeros, one of which ends
where the search is. -/
theorem zeros_longestZeros {front segments : List ℕ} {current longest : ZeroSpan}
    (hcurrent : current.Zeros front)
    (hends : current.length = 0 ∨ current.start + current.length = front.length)
    (hlongest : longest.Zeros front) :
    (longestZeros segments front.length current longest).Zeros (front ++ segments) := by
  induction segments generalizing front current longest with
  | nil => exact hlongest.append []
  | cons segment segments ih =>
    have hsplit : front ++ segment :: segments = (front ++ [segment]) ++ segments := by simp
    have hlength : front.length + 1 = (front ++ [segment]).length := by simp
    rw [longestZeros, hsplit, hlength]
    split
    · next hzero =>
      subst hzero
      have hstart : (if current.length = 0 then front.length else current.start) +
          current.length = front.length := by
        split <;> omega
      have hold : ∀ i, (if current.length = 0 then front.length else current.start) ≤ i →
          i < front.length → front[i]? = some 0 := by
        intro i hle hlt
        split at hle
        · exact absurd hlt (Nat.not_lt.mpr hle)
        · exact hcurrent.zero i hle (by omega)
      generalize (if current.length = 0 then front.length else current.start) = start at hstart hold
      have hlonger : ZeroSpan.Zeros ⟨start, current.length + 1⟩ (front ++ [0]) := by
        constructor
        · rw [List.length_append, List.length_singleton]
          exact Nat.succ_le_succ hstart.le
        · intro i hle hlt
          dsimp only at hle hlt
          by_cases hlast : i = front.length
          · subst hlast
            simp
          · have hbefore : i < front.length := by omega
            rw [List.getElem?_append_left hbefore]
            exact hold i hle hbefore
      refine ih hlonger (.inr ?_) ?_
      · rw [List.length_append, List.length_singleton]
        exact congrArg (· + 1) hstart
      · dsimp only
        by_cases hlt : longest.length < current.length + 1
        · rw [if_pos hlt]
          exact hlonger
        · rw [if_neg hlt]
          exact hlongest.append _
    · exact ih (ZeroSpan.zeros_empty _) (.inl rfl) (hlongest.append _)

/-- What is left out is zeros. -/
theorem ZeroSpan.Zeros.eq {zeros : ZeroSpan} {segments : List ℕ} (h : zeros.Zeros segments) :
    segments.take zeros.start ++ List.replicate zeros.length 0 ++
      segments.drop (zeros.start + zeros.length) = segments := by
  have hmiddle : (segments.drop zeros.start).take zeros.length = List.replicate zeros.length 0 := by
    have hle := h.le
    refine List.ext_getElem? fun i => ?_
    by_cases hi : i < zeros.length
    · rw [List.getElem?_take_of_lt hi, List.getElem?_drop, List.getElem?_replicate_of_lt hi]
      exact h.zero _ (Nat.le_add_right _ _) (Nat.add_lt_add_left hi _)
    · rw [List.getElem?_eq_none (by simp; omega), List.getElem?_eq_none (by simp; omega)]
  rw [← hmiddle, List.append_assoc, ← List.drop_drop, List.take_append_drop, List.take_append_drop]

/-! ### Whole addresses -/

/-- An IPv6 address has eight segments. -/
theorem length_ipv6Segments (address : BitVec 128) : (ipv6Segments address).length = 8 := rfl

/-- Every segment of an IPv6 address is a sixteen-bit number. -/
theorem lt_of_mem_ipv6Segments {address : BitVec 128} {group : ℕ}
    (h : group ∈ ipv6Segments address) : group < 2 ^ 16 := by
  obtain ⟨i, -, rfl⟩ := List.mem_map.mp h
  exact Nat.mod_lt _ (by decide)

/-- A group put behind the groups above it. -/
theorem shift_group (value k : ℕ) :
    value / 2 ^ (k + 16) * 2 ^ 16 + value / 2 ^ k % 2 ^ 16 = value / 2 ^ k := by
  rw [pow_add, ← Nat.div_div_eq_div_mul]
  exact Nat.div_add_mod' _ _

/-- An IPv6 address is made up of its segments. -/
theorem ipv6OfGroups_segments (address : BitVec 128) :
    ipv6OfGroups (ipv6Segments address) = address := by
  have htop : 0 * 2 ^ 16 + address.toNat / 2 ^ 112 % 2 ^ 16 = address.toNat / 2 ^ 112 := by
    rw [Nat.zero_mul, Nat.zero_add, Nat.mod_eq_of_lt]
    exact Nat.div_lt_of_lt_mul address.isLt
  have hgroups : ipv6Segments address =
      [address.toNat / 2 ^ 112 % 2 ^ 16, address.toNat / 2 ^ 96 % 2 ^ 16,
        address.toNat / 2 ^ 80 % 2 ^ 16, address.toNat / 2 ^ 64 % 2 ^ 16,
        address.toNat / 2 ^ 48 % 2 ^ 16, address.toNat / 2 ^ 32 % 2 ^ 16,
        address.toNat / 2 ^ 16 % 2 ^ 16, address.toNat / 2 ^ 0 % 2 ^ 16] := rfl
  apply BitVec.eq_of_toNat_eq
  rw [ipv6OfGroups, BitVec.toNat_ofNat, hgroups]
  simp only [List.foldl_cons, List.foldl_nil]
  rw [htop, shift_group _ 96, shift_group _ 80, shift_group _ 64,
    shift_group _ 48, shift_group _ 32, shift_group _ 16, shift_group _ 0, pow_zero, Nat.div_one,
      Nat.mod_eq_of_lt address.isLt]

/-- An IPv4 address in the last two groups. -/
theorem ipv6OfGroups_mapped {address : BitVec 128} (h : address.toNat / 2 ^ 32 = 0xffff) :
    ipv6OfGroups ([] ++ List.replicate 5 0 ++ [0xffff, (address.truncate 32).toNat / 2 ^ 16,
      (address.truncate 32).toNat % 2 ^ 16]) = address := by
  have hlow : (address.truncate 32).toNat = address.toNat % 2 ^ 32 := BitVec.toNat_setWidth ..
  apply BitVec.eq_of_toNat_eq
  rw [ipv6OfGroups, BitVec.toNat_ofNat, hlow]
  simp only [List.nil_append, List.replicate_succ, List.replicate_zero, List.cons_append,
    List.foldl_cons, List.foldl_nil]
  omega

/-- The groups of a mapped IPv4 address. -/
theorem readGroups_mapped (address : BitVec 32) :
    readGroups 7 0 (Nat.toDigits 16 0xffff ++ ':' :: (ipv4Text address).toList) =
      (([0xffff, address.toNat / 2 ^ 16, address.toNat % 2 ^ 16], true), []) := by
  have hmapped : readIpv4Addr (ipv4Text address).toList = some (address, []) := by
    have hread := readIpv4Addr_text address (noDigit_nil 10)
    rwa [List.append_nil] at hread
  have hletter : readIpv4Addr (Nat.toDigits 16 0xffff ++ ':' :: (ipv4Text address).toList) = none :=
    readIpv4Addr_of_noDigit (noDigit_cons (by decide) _)
  have hcolon : NoDigit 16 (':' :: (ipv4Text address).toList) := noDigit_cons (by decide) _
  rw [readGroups, if_pos (by decide), readSeparator_zero, hletter, readSeparator_zero,
    readGroup_toDigits (by decide) hcolon]
  dsimp only
  rw [readGroups, if_pos (by decide), readSeparator_cons ':' (by decide), hmapped]

/-- Two colons come first where the first group is left out. -/
theorem readGroups_colons (text : List Char) :
    readGroups 8 0 (':' :: ':' :: text) = (([], false), ':' :: ':' :: text) := by
  have hfour : readIpv4Addr (':' :: ':' :: text) = none :=
    readIpv4Addr_of_noDigit (noDigit_cons (by decide) _)
  have hgroup : readGroup (':' :: ':' :: text) = none :=
    readNumber_of_noDigit (noDigit_cons (by decide) _)
  rw [readGroups, if_pos (by decide), readSeparator_zero, hfour, readSeparator_zero, hgroup]

/-- What is taken around two colons. -/
theorem readIpv6Addr_colons {text rest : List Char} {head tail : List ℕ} {ipv4 : Bool}
    (hhead : readGroups 8 0 text = ((head, false), ':' :: ':' :: rest)) (hshort : head.length < 8)
    (htail : readGroups (8 - (head.length + 1)) 0 rest = ((tail, ipv4), [])) :
    readIpv6Addr text = some (ipv6OfGroups
      (head ++ List.replicate (8 - head.length - tail.length) 0 ++ tail), []) := by
  rw [readIpv6Addr, hhead]
  dsimp only
  rw [if_neg hshort.ne, if_neg Bool.false_ne_true]
  simp only [readGivenChar, if_true, Option.bind_eq_bind, Option.bind_some, htail]
  rfl

/-- An IPv6 address does not start as an IPv4 address does. -/
theorem readIpv4Addr_ipv6Text (address : BitVec 128) :
    readIpv4Addr (ipv6Text address).toList = none := by
  rw [ipv6Text]
  split
  · have hcolon : ("::ffff:" ++ ipv4Text (address.truncate 32)).toList =
        ':' :: (":ffff:".toList ++ (ipv4Text (address.truncate 32)).toList) := by
      rw [String.toList_append]
      rfl
    rw [hcolon]
    exact readIpv4Addr_of_noDigit (noDigit_cons (by decide) _)
  · dsimp only
    split
    · rw [String.toList_append, String.toList_append, toList_segmentsText, toList_segmentsText]
      refine readIpv4Addr_of_no_dot fun hmem => ?_
      rcases List.mem_append.mp hmem with hmem | hmem
      · rcases List.mem_append.mp hmem with hmem | hmem
        · exact dot_notMem_groupsFrom _ _ hmem
        · exact absurd hmem (by decide)
      · exact dot_notMem_groupsFrom _ _ hmem
    · rw [toList_segmentsText]
      exact readIpv4Addr_of_no_dot (dot_notMem_groupsFrom _ _)

/-- An IPv6 address that is written is taken back: as a mapped IPv4 address, with groups left out,
or in full. -/
theorem readIpv6Addr_text (address : BitVec 128) :
    readIpv6Addr (ipv6Text address).toList = some (address, []) := by
  have hlength := length_ipv6Segments address
  have hsmall : ∀ group ∈ ipv6Segments address, group < 2 ^ 16 :=
    fun group => lt_of_mem_ipv6Segments
  rw [ipv6Text]
  split
  · next hmapped =>
    have htext : ("::ffff:" ++ ipv4Text (address.truncate 32)).toList =
        ':' :: ':' :: (Nat.toDigits 16 0xffff ++ ':' :: (ipv4Text (address.truncate 32)).toList) :=
          by
      rw [String.toList_append]
      rfl
    rw [htext, readIpv6Addr_colons (readGroups_colons _) (by decide) (readGroups_mapped _)]
    exact congrArg (fun address => some (address, [])) (ipv6OfGroups_mapped hmapped)
  · dsimp only
    have hzeros : (longestZeros (ipv6Segments address) 0 ⟨0, 0⟩ ⟨0, 0⟩).Zeros
        ([] ++ ipv6Segments address) :=
      zeros_longestZeros (ZeroSpan.zeros_empty []) (.inl rfl) (ZeroSpan.zeros_empty [])
    rw [List.nil_append] at hzeros
    generalize longestZeros (ipv6Segments address) 0 ⟨0, 0⟩ ⟨0, 0⟩ = zeros at hzeros
    split
    · next hmore =>
      have hle := hzeros.le
      have hhead : ∀ group ∈ (ipv6Segments address).take zeros.start, group < 2 ^ 16 :=
        fun group hmem => hsmall group (List.mem_of_mem_take hmem)
      have htail : ∀ group ∈ (ipv6Segments address).drop (zeros.start + zeros.length),
          group < 2 ^ 16 := fun group hmem => hsmall group (List.mem_of_mem_drop hmem)
      have hheadLength : ((ipv6Segments address).take zeros.start).length = zeros.start := by
        rw [List.length_take]
        omega
      have htailLength : ((ipv6Segments address).drop (zeros.start + zeros.length)).length =
          8 - (zeros.start + zeros.length) := by
        rw [List.length_drop, hlength]
      have hdot := dot_notMem_groupsFrom 0
        ((ipv6Segments address).drop (zeros.start + zeros.length))
      have hshort : ((ipv6Segments address).drop (zeros.start + zeros.length)).length ≤
          8 - (((ipv6Segments address).take zeros.start).length + 1) := by
        omega
      have hheadFits : ((ipv6Segments address).take zeros.start).length ≤ 8 := by
        omega
      have hreadHead := readGroups_groupsFrom hhead hheadFits (noGroup_colons hdot) 0
      have hreadTail := readGroups_groupsFrom htail hshort noGroup_nil 0
      rw [List.append_nil] at hreadTail
      have htext : (segmentsText ((ipv6Segments address).take zeros.start) ++ "::" ++
          segmentsText ((ipv6Segments address).drop (zeros.start + zeros.length))).toList =
            groupsFrom 0 ((ipv6Segments address).take zeros.start) ++ ':' :: ':' ::
              groupsFrom 0 ((ipv6Segments address).drop (zeros.start + zeros.length)) := by
        rw [String.toList_append, String.toList_append, toList_segmentsText, toList_segmentsText,
          List.append_assoc]
        rfl
      have hcount : 8 - ((ipv6Segments address).take zeros.start).length -
          ((ipv6Segments address).drop (zeros.start + zeros.length)).length = zeros.length := by
        omega
      rw [htext, readIpv6Addr_colons hreadHead (by omega) hreadTail, hcount, hzeros.eq,
        ipv6OfGroups_segments]
    · have hread := readGroups_groupsFrom hsmall hlength.le noGroup_nil 0
      rw [List.append_nil] at hread
      rw [toList_segmentsText, readIpv6Addr, hread]
      dsimp only
      rw [if_pos hlength, ipv6OfGroups_segments]

end OncRpc
