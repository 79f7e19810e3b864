import Tailcat.Net.Addr

/-!
# IP addresses as text

`parseIp` reads an address as `str::parse::<IpAddr>` does, `ipv4Text` and `ipv6Text` write one.

`chars_of_parseIp` : the text of an address has only hexadecimal digits, dots and colons.

The reader follows the one of the standard library: a reader takes characters from the front and
gives back what is left (`Reader`), octets have no leading zeros and at most three digits, and an
IPv6 address may leave out one run of zero groups and end in an IPv4 address.  The writer shortens
the longest run of zero groups, the first of several.

Of the reader it is shown only which characters it can take: each small reader takes such characters
and leaves the rest alone (`Takes`), which passes from the parts to the whole.  That is what tells a
literal address from the name of a host.  That the reader gives back what the writer wrote is not
shown, and nothing here needs it.
-/

namespace Tailcat.Net

/-! ### Reading -/

/-- What reads something at the front of a text, and leaves the rest. -/
abbrev Reader (α : Type) := List Char → Option (α × List Char)

/-- `char::to_digit`. -/
def toDigit (radix : ℕ) (c : Char) : Option ℕ :=
  let n := c.toNat
  let digit :=
    if 48 ≤ n ∧ n ≤ 57 then some (n - 48)
    else if 97 ≤ n ∧ n ≤ 102 then some (n - 87)
    else if 65 ≤ n ∧ n ≤ 70 then some (n - 55)
    else none
  digit.filter (· < radix)

/-- A number of up to `maxDigits` digits that is below a limit. -/
def readNumber (radix maxDigits limit : ℕ) (zeroPrefix : Bool) : Reader ℕ := fun cs =>
  let digits := cs.takeWhile fun c => (toDigit radix c).isSome
  let value := (digits.filterMap (toDigit radix)).foldl (fun n d => radix * n + d) 0
  if digits = [] ∨ maxDigits < digits.length ∨ limit ≤ value ∨
      !zeroPrefix ∧ digits.head? = some '0' ∧ 1 < digits.length then none
  else some (value, cs.drop digits.length)

/-- Something with a separator before it, unless it is the first. -/
def readSeparated {α : Type} (sep : Char) (index : ℕ) (inner : Reader α) : Reader α := fun cs =>
  if index = 0 then inner cs
  else
    match cs with
    | c :: cs => if c = sep then inner cs else none
    | [] => none

/-- An octet of an IPv4 address. -/
def readOctet (index : ℕ) : Reader UInt8 := fun cs => do
  let (n, rest) ← readSeparated '.' index (readNumber 10 3 256 false) cs
  return (UInt8.ofNat n, rest)

def readIpv4Addr : Reader Ipv4Addr := fun cs => do
  let (a, cs) ← readOctet 0 cs
  let (b, cs) ← readOctet 1 cs
  let (c, cs) ← readOctet 2 cs
  let (d, cs) ← readOctet 3 cs
  return (⟨[a, b, c, d], rfl⟩, cs)

/-- The octets of up to `n` groups from group `i` of `limit` groups on, and whether an IPv4 address
came last. -/
def readGroups (limit : ℕ) : (n i : ℕ) → List Char → Bytes × Bool × List Char
  | 0, _, cs => ([], false, cs)
  | n + 1, i, cs =>
    match if i < limit - 1 then readSeparated ':' i readIpv4Addr cs else none with
    | some (ip, rest) => (ip.1, true, rest)
    | none =>
      match readSeparated ':' i (readNumber 16 4 65536 true) cs with
      | some (group, rest) =>
        let (groups, v4, rest) := readGroups limit n (i + 1) rest
        (beBytes16 group ++ groups, v4, rest)
      | none => ([], false, cs)

def readIpv6Addr : Reader Ipv6Addr := fun cs =>
  let (head, v4, rest) := readGroups 8 8 0 cs
  if h : head.length = 16 then some (⟨head, h⟩, rest)
  else if v4 then none
  else
    match rest with
    | ':' :: ':' :: rest =>
      -- at least one group of zeros
      let limit := 8 - (head.length / 2 + 1)
      let (tail, _, rest) := readGroups limit limit 0 rest
      let octets := head ++ List.replicate (16 - head.length - tail.length) 0 ++ tail
      if h : octets.length = 16 then some (⟨octets, h⟩, rest) else none
    | _ => none

def readIpAddr : Reader IpAddr := fun cs =>
  match readIpv4Addr cs with
  | some (ip, rest) => some (.v4 ip, rest)
  | none => (readIpv6Addr cs).map fun (ip, rest) => (.v6 ip, rest)

/-- `str::parse::<IpAddr>`. -/
def parseIp (s : List Char) : Option IpAddr :=
  match readIpAddr s with
  | some (ip, []) => some ip
  | _ => none

/-! ### The characters of an address -/

/-- A hexadecimal digit, a dot or a colon. -/
def IsIpChar (c : Char) : Prop := (toDigit 16 c).isSome ∨ c = '.' ∨ c = ':'

/-- What a reader takes are characters of addresses. -/
def Takes {α : Type} (r : Reader α) : Prop :=
  ∀ cs x rest, r cs = some (x, rest) → ∃ front, cs = front ++ rest ∧ ∀ c ∈ front, IsIpChar c

theorem toDigit_mono {radix : ℕ} {c : Char} (hradix : radix ≤ 16)
    (h : (toDigit radix c).isSome = true) : (toDigit 16 c).isSome = true := by
  obtain ⟨d, hd⟩ := Option.isSome_iff_exists.1 h
  obtain ⟨hdigit, hlt⟩ := Option.filter_eq_some_iff.1 hd
  refine Option.isSome_iff_exists.2 ⟨d, Option.filter_eq_some_iff.2 ⟨hdigit, ?_⟩⟩
  simp only [decide_eq_true_eq] at hlt ⊢
  omega

theorem takes_readNumber {radix maxDigits limit : ℕ} {zeroPrefix : Bool} (hradix : radix ≤ 16) :
    Takes (readNumber radix maxDigits limit zeroPrefix) := by
  intro cs x rest h
  unfold readNumber at h
  dsimp only at h
  split_ifs at h
  cases h
  refine ⟨cs.takeWhile fun c => (toDigit radix c).isSome, ?_, fun c hc => ?_⟩
  · exact (List.prefix_iff_eq_append.1 (List.takeWhile_prefix _)).symm
  · exact .inl (toDigit_mono hradix (List.all_eq_true.1 List.all_takeWhile c hc))

theorem Takes.separated {α : Type} {r : Reader α} (h : Takes r) {sep : Char} (hsep : IsIpChar sep)
    (index : ℕ) : Takes (readSeparated sep index r) := by
  intro cs x rest hread
  unfold readSeparated at hread
  split_ifs at hread
  · exact h cs x rest hread
  · split at hread
    · rename_i c cs
      split_ifs at hread with heq
      obtain ⟨front, rfl, hfront⟩ := h cs x rest hread
      exact ⟨c :: front, rfl, List.forall_mem_cons.2 ⟨heq ▸ hsep, hfront⟩⟩
    · cases hread

theorem Takes.bind {α β : Type} {r : Reader α} {f : α → Reader β} (hr : Takes r)
    (hf : ∀ x, Takes (f x)) : Takes fun cs => (r cs).bind fun (x, cs) => f x cs := by
  intro cs y rest h
  obtain ⟨⟨x, cs'⟩, hx, hy⟩ := Option.bind_eq_some_iff.1 h
  obtain ⟨front, rfl, hfront⟩ := hr cs x cs' hx
  obtain ⟨front', rfl, hfront'⟩ := hf x cs' y rest hy
  exact ⟨front ++ front', by simp, List.forall_mem_append.2 ⟨hfront, hfront'⟩⟩

theorem Takes.pure {α : Type} (x : α) : Takes fun cs => some (x, cs) := by
  rintro cs _ _ ⟨⟩
  exact ⟨[], rfl, nofun⟩

theorem takes_readOctet (index : ℕ) : Takes (readOctet index) :=
  ((takes_readNumber (by omega)).separated (.inr (.inl rfl)) index).bind fun _ => .pure _

theorem takes_readIpv4Addr : Takes readIpv4Addr :=
  (takes_readOctet 0).bind fun a => (takes_readOctet 1).bind fun b =>
    (takes_readOctet 2).bind fun c => (takes_readOctet 3).bind fun d =>
      .pure (⟨[a, b, c, d], rfl⟩ : Ipv4Addr)

theorem takes_readGroups (limit : ℕ) (n i : ℕ) (cs : List Char) :
    ∃ front, cs = front ++ (readGroups limit n i cs).2.2 ∧ ∀ c ∈ front, IsIpChar c := by
  induction n generalizing i cs with
  | zero => exact ⟨[], rfl, nofun⟩
  | succ n ih =>
    rw [readGroups]
    split
    · rename_i ip rest hread
      split_ifs at hread
      exact takes_readIpv4Addr.separated (.inr (.inr rfl)) i cs ip rest hread
    · split
      · rename_i group rest hread
        obtain ⟨front, rfl, hfront⟩ := (takes_readNumber (Nat.le_refl 16)).separated
          (.inr (.inr rfl)) i cs group rest hread
        obtain ⟨front', hrest, hfront'⟩ := ih (i + 1) rest
        exact ⟨front ++ front', by rw [List.append_assoc, ← hrest],
          List.forall_mem_append.2 ⟨hfront, hfront'⟩⟩
      · exact ⟨[], rfl, nofun⟩

theorem takes_readIpv6Addr : Takes readIpv6Addr := by
  intro cs x rest h
  obtain ⟨front, hcs, hfront⟩ := takes_readGroups 8 8 0 cs
  unfold readIpv6Addr at h
  dsimp only at h
  split_ifs at h
  · cases h
    exact ⟨front, hcs, hfront⟩
  · split at h
    · rename_i cs' hrest
      obtain ⟨front', hcs', hfront'⟩ := takes_readGroups
        (8 - ((readGroups 8 8 0 cs).1.length / 2 + 1)) (8 - ((readGroups 8 8 0 cs).1.length / 2 + 1))
          0 cs'
      split_ifs at h
      cases h
      refine ⟨front ++ [':', ':'] ++ front', ?_, ?_⟩
      · rw [List.append_assoc, List.append_assoc, ← hcs']
        exact hcs.trans (congrArg (front ++ ·) hrest)
      · simp only [List.forall_mem_append, List.forall_mem_cons]
        exact ⟨⟨hfront, .inr (.inr rfl), .inr (.inr rfl), nofun⟩, hfront'⟩
    · cases h

/-- The text of an address has only hexadecimal digits, dots and colons. -/
theorem chars_of_parseIp {s : List Char} {ip : IpAddr} (h : parseIp s = some ip) :
    ∀ c ∈ s, IsIpChar c := by
  have htakes : Takes readIpAddr := by
    intro cs x rest hread
    unfold readIpAddr at hread
    split at hread
    · rename_i ip rest hip
      cases hread
      exact takes_readIpv4Addr cs ip _ hip
    · obtain ⟨⟨ip, rest⟩, hip, hread⟩ := Option.map_eq_some_iff.1 hread
      cases hread
      exact takes_readIpv6Addr cs ip _ hip
  unfold parseIp at h
  split at h
  · rename_i ip hread
    obtain ⟨front, rfl, hfront⟩ := htakes s ip [] hread
    simpa using hfront
  · cases h

/-! ### Writing -/

/-- `Ipv4Addr::to_string`. -/
def ipv4Text (ip : Ipv4Addr) : List Char :=
  ['.'].intercalate (ip.1.map fun b => Nat.toDigits 10 b.toNat)

/-- The groups of an IPv6 address. -/
def segments (ip : Ipv6Addr) : List ℕ :=
  (List.range 8).map fun i => ofBeBytes16 (ip.1.getD (2 * i) 0) (ip.1.getD (2 * i + 1) 0)

/-- The first of the longest runs of zeros from index `i` on: its start and its length, beside the
longest run and the current one so far. -/
def longestZeros (i : ℕ) (longest current : ℕ × ℕ) : List ℕ → ℕ × ℕ
  | [] => longest
  | 0 :: groups =>
    let current := if current.2 = 0 then (i, 1) else (current.1, current.2 + 1)
    longestZeros (i + 1) (if longest.2 < current.2 then current else longest) current groups
  | _ :: groups => longestZeros (i + 1) longest (0, 0) groups

/-- Groups in hexadecimal digits. -/
def groupsText (groups : List ℕ) : List Char := [':'].intercalate (groups.map (Nat.toDigits 16))

/-- `Ipv6Addr::to_string`. -/
def ipv6Text (ip : Ipv6Addr) : List Char :=
  match toIpv4Mapped ip with
  | some ip => "::ffff:".toList ++ ipv4Text ip
  | none =>
    let groups := segments ip
    let zeros := longestZeros 0 (0, 0) (0, 0) groups
    if 1 < zeros.2 then
      groupsText (groups.take zeros.1) ++ "::".toList ++ groupsText (groups.drop (zeros.1 + zeros.2))
    else groupsText groups

example : (parseIp "2001:db8::1:0:0:1".toList).map (fun
    | .v4 ip => ipv4Text ip
    | .v6 ip => ipv6Text ip) = some "2001:db8::1:0:0:1".toList := by
  decide +kernel

end Tailcat.Net
