import Tailcat.Protocol.AddressRoundTrip
import Tailcat.Cli.ServeSpec

/-!
# Address arguments

The server of a command is given by its address or by a DNS name with a TXT record that holds the
address.  An address is a secret, so nothing that contains one may be looked up.

`classifyAddress_protects` says what is taken for an address, what for a DNS name, and that no label
of a name that is looked up is an address.

The order of the checks decides: whatever parses as an address is one, then a name is refused if any
of its labels parses, with a trailing dot or without, and only then is it checked to be a DNS name.
The parser of addresses is a parameter, and nothing is assumed of it but that an address begins with
its prefix.

The result is about the whole function, for every argument: what it answers in each case, and that
what a resolver is asked contains no label that is an address.
-/

namespace Tailcat.Cli

open Protocol (Codec standard)

/-- What an argument names a server by. -/
inductive AddressArg
  | address (addr : String)
  | dnsName (name : String)
  deriving DecidableEq

/-- The labels of a name. -/
def labels (name : List Char) : List (List Char) := splitOn '.' name

/-! ### DNS names -/

/-- `u8::is_ascii_alphanumeric`. -/
def isAsciiAlphanumeric (b : UInt8) : Bool :=
  (48 ≤ b.toNat && b.toNat ≤ 57) || (65 ≤ b.toNat && b.toNat ≤ 90) ||
    (97 ≤ b.toNat && b.toNat ≤ 122)

/-- Check a label of a DNS name. -/
def validateLabel (label : List Char) : Except String Unit :=
  if label = [] then .error "name contains an empty label"
  else if 63 < (utf8 label).length then .error "name contains a label longer than 63 bytes"
  else if label.head? = some '-' ∨ label.getLast? = some '-' then
    .error "name contains a label beginning or ending with a hyphen"
  else
    match (utf8 label).find? fun b => !isAsciiAlphanumeric b && b ≠ 45 with
    | some b => .error s!"name contains invalid character '{Char.ofNat b.toNat}'"
    | none => .ok ()

/-- Check a DNS name. -/
def validateDnsName (name : List Char) : Except String Unit :=
  if name = [] then .error "name is empty"
  else if 253 < (utf8 name).length then .error "name is longer than 253 bytes"
  else forM (labels name) validateLabel

/-- A label of letters, digits and hyphens, with no hyphen at either end. -/
structure IsDnsLabel (label : List Char) : Prop where
  nonempty : label ≠ []
  length : label.length ≤ 63
  first : label.head? ≠ some '-'
  last : label.getLast? ≠ some '-'
  chars : ∀ c ∈ label, c.isAlphanum = true ∨ c = '-'

/-- A name of at most 253 bytes in labels. -/
structure IsDnsName (name : List Char) : Prop where
  length : (utf8 name).length ≤ 253
  labels : ∀ label ∈ labels name, IsDnsLabel label

theorem isAlphanum_of_ascii {c : Char} {b : UInt8} (hb : b.toNat = c.toNat)
    (h : isAsciiAlphanumeric b = true) : c.isAlphanum = true := by
  have hc : c.val.toNat = c.toNat := rfl
  simp only [isAsciiAlphanumeric, Bool.or_eq_true, Bool.and_eq_true, decide_eq_true_eq] at h
  have hdef : c.isAlphanum = ((decide (c.val ≥ 65 ∧ c.val ≤ 90) || (c.val ≥ 97 && c.val ≤ 122)) ||
      (c.val ≥ 48 && c.val ≤ 57)) := rfl
  simp only [hdef, Bool.or_eq_true, Bool.and_eq_true, decide_eq_true_eq, ge_iff_le,
    UInt32.le_iff_toNat_le, hc, UInt32.reduceToNat]
  omega

/-- A text of ASCII letters, digits and hyphens, by its bytes. -/
theorem char_of_bytes {label : List Char}
    (h : ∀ b ∈ utf8 label, isAsciiAlphanumeric b = true ∨ b = 45) :
    ∀ c ∈ label, c.isAlphanum = true ∨ c = '-' := by
  intro c hc
  have hbytes : ∀ b ∈ String.utf8EncodeChar c, isAsciiAlphanumeric b = true ∨ b = 45 :=
    fun b hb => h b (List.mem_flatMap.2 ⟨c, hc, hb⟩)
  have hascii : ∀ b ∈ String.utf8EncodeChar c, b.toNat < 128 := by
    intro b hb
    rcases hbytes b hb with hletter | rfl
    · simp only [isAsciiAlphanumeric, Bool.or_eq_true, Bool.and_eq_true, decide_eq_true_eq] at hletter
      omega
    · decide
  obtain ⟨b, hb, hnat⟩ := toNat_of_ascii hascii
  rcases hbytes b (by rw [hb]; exact List.mem_singleton_self b) with hletter | rfl
  · exact .inl (isAlphanum_of_ascii hnat hletter)
  · exact .inr (Char.ext (UInt32.toNat_inj.1 hnat.symm))

theorem length_le_utf8 (s : List Char) : s.length ≤ (utf8 s).length := by
  induction s with
  | nil => exact Nat.le_refl 0
  | cons c s ih =>
    have hc : 1 ≤ (String.utf8EncodeChar c).length := by
      rw [String.length_utf8EncodeChar]
      exact c.utf8Size_pos
    rw [utf8, List.flatMap_cons, List.length_append, List.length_cons]
    have := ih
    rw [utf8] at this
    omega

theorem isDnsLabel_of_validate {label : List Char} (h : validateLabel label = .ok ()) :
    IsDnsLabel label := by
  unfold validateLabel at h
  split_ifs at h with hempty hlength hhyphen
  split at h
  · cases h
  · rename_i hnone
    have hle := length_le_utf8 label
    refine ⟨hempty, by omega, fun heq => hhyphen (.inl heq), fun heq => hhyphen (.inr heq),
      char_of_bytes fun b hb => ?_⟩
    have hfound := List.find?_eq_none.1 hnone b hb
    by_cases hletter : isAsciiAlphanumeric b = true
    · exact .inl hletter
    · exact .inr (by simpa [hletter] using hfound)

theorem validateLabel_of_forM {names : List (List Char)} (h : forM names validateLabel = .ok ()) :
    ∀ label ∈ names, validateLabel label = .ok () := by
  induction names with
  | nil => exact nofun
  | cons name names ih =>
    rw [List.forM_cons] at h
    cases hname : validateLabel name with
    | error err =>
      rw [hname] at h
      cases h
    | ok u =>
      rw [hname] at h
      intro label hlabel
      rcases List.mem_cons.1 hlabel with rfl | hlabel
      · exact hname
      · exact ih h label hlabel

theorem isDnsName_of_validate {name : List Char} (h : validateDnsName name = .ok ()) :
    IsDnsName name := by
  unfold validateDnsName at h
  split_ifs at h with hempty hlength
  exact ⟨by omega, fun label hlabel => isDnsLabel_of_validate (validateLabel_of_forM h label hlabel)⟩

/-! ### Arguments -/

variable (c : Codec)

/-- `parse_addr` accepts the text. -/
def accepts (s : List Char) : Bool := (c.parseAddr (String.ofList s)).isOk

/-- `str::strip_suffix` of a dot, if there is one. -/
def stripDot (s : List Char) : List Char := if s.getLast? = some '.' then s.dropLast else s

/-- What an argument names a server by. -/
def classifyAddress (arg : String) : Except String AddressArg :=
  if (c.parseAddr arg).isOk then .ok (.address arg)
  else if '.' ∉ arg.toList then
    .error s!"argument {quoted arg.toList} is neither a valid tailcat address nor a DNS name"
  else
    let name := stripDot arg.toList
    if (labels name).any (accepts c) then
      .error "argument contains a valid tailcat address as a DNS label; refusing DNS lookup"
    else
      match validateDnsName name with
      | .error _ => .error s!"invalid DNS name {quoted arg.toList}"
      | .ok () => .ok (.dnsName arg)

/-- The system's DNS resolver. -/
structure Resolver where
  /-- Its configuration can be read. -/
  configured : Bool
  /-- The values of the TXT records of a name, unless that fails or takes too long. -/
  txtLookup : String → Except String (List Bytes)

/-- The address in the TXT records of a name. -/
def txtAddress (name : String) : List Bytes → Except String String
  | [] => .error s!"no \"tailcat=\" TXT record found for {quoted name.toList}"
  | value :: values =>
    match Codec.stripPrefix "tailcat=" (String.ofList (fromUtf8Lossy value)) with
    | some addr =>
      let addr := String.ofList (trim addr.toList)
      if (c.parseAddr addr).isOk then .ok addr else .error "invalid tailcat= TXT record"
    | none => txtAddress name values

/-- The names looked up for an argument, and its address. -/
def resolveAddress (r : Resolver) (arg : String) : List String × Except String String :=
  match classifyAddress c arg with
  | .error err => ([], .error err)
  | .ok (.address addr) => ([], .ok addr)
  | .ok (.dnsName name) =>
    if !r.configured then ([], .error "loading DNS resolver configuration")
    else ([name], r.txtLookup name >>= txtAddress c name)

/-- The same for an argument that has to be an address if it has no dot. -/
def validatedAddress (r : Resolver) (arg : String) : List String × Except String String :=
  if '.' ∈ arg.toList then resolveAddress c r arg
  else
    match c.parseAddr arg with
    | .error _ => ([], .error s!"invalid tailcat address {quoted arg.toList}")
    | .ok _ => ([], .ok arg)

/-! ### Labels -/

theorem labels_stripDot (s : List Char) :
    ∀ label ∈ labels s, label ∈ labels (stripDot s) ∨ label = [] := by
  intro label hlabel
  unfold stripDot
  split_ifs with hdot
  · obtain ⟨t, rfl⟩ := List.getLast?_eq_some_iff.1 hdot
    rw [labels, splitOn_concat] at hlabel
    rw [List.dropLast_concat]
    rcases List.mem_append.1 hlabel with hold | hnew
    · exact .inl hold
    · exact .inr (List.mem_singleton.1 hnew)
  · exact .inl hlabel

variable {c}

/-- An address begins with `tc`. -/
theorem prefix_of_accepts {s : List Char} (h : accepts c s = true) : ['t', 'c'] <+: s := by
  by_contra hpre
  have hstrip : Codec.stripPrefix "tc" (String.ofList s) = none := by
    have htext : (String.ofList s).toList = s := String.toList_ofList
    rw [Codec.stripPrefix, htext]
    exact if_neg fun hp => hpre (List.isPrefixOf_iff_prefix.1 hp)
  have hparse : c.parseAddr (String.ofList s) =
      .error "tailcat address doesn't start with \"tc\"" := by
    rw [Codec.parseAddr, Codec.decodeAddr, hstrip]
    rfl
  rw [accepts, hparse] at h
  cases h

/-! ### What is looked up -/

theorem classifyAddress_address {arg : String} :
    (∃ addr, classifyAddress c arg = .ok (.address addr)) ↔ (c.parseAddr arg).isOk = true := by
  unfold classifyAddress
  constructor
  · rintro ⟨addr, h⟩
    by_contra haccepts
    rw [if_neg haccepts] at h
    split_ifs at h
    dsimp only at h
    split_ifs at h
    split at h <;> cases h
  · intro h
    exact ⟨arg, if_pos h⟩

theorem classifyAddress_dnsName {arg name : String}
    (h : classifyAddress c arg = .ok (.dnsName name)) :
    name = arg ∧ IsDnsName (stripDot arg.toList) ∧
      ∀ label ∈ labels arg.toList, accepts c label = false := by
  unfold classifyAddress at h
  split_ifs at h with haccepts hdot
  · cases h
  dsimp only at h
  split_ifs at h with hlabels
  split at h
  · cases h
  · rename_i hvalid
    cases h
    refine ⟨rfl, isDnsName_of_validate hvalid, fun label hlabel => ?_⟩
    rcases labels_stripDot arg.toList label hlabel with hmem | rfl
    · exact Bool.eq_false_iff.2 fun h => hlabels (List.any_eq_true.2 ⟨label, hmem, h⟩)
    · exact Bool.eq_false_iff.2 fun h => absurd (prefix_of_accepts h) (by decide)

/-- A name is looked up only if the argument is classified as this name. -/
theorem mem_resolveAddress {r : Resolver} {arg name : String}
    (h : name ∈ (resolveAddress c r arg).1) : classifyAddress c arg = .ok (.dnsName name) := by
  unfold resolveAddress at h
  split at h
  · cases h
  · cases h
  · rename_i name' hname
    split_ifs at h
    · cases h
    · rw [hname, List.mem_singleton.1 h]

theorem mem_validatedAddress {r : Resolver} {arg name : String}
    (h : name ∈ (validatedAddress c r arg).1) : classifyAddress c arg = .ok (.dnsName name) := by
  unfold validatedAddress at h
  split_ifs at h
  · exact mem_resolveAddress h
  · split at h <;> cases h

/-- **Address arguments**: an argument is taken for an address exactly if it is one; what is looked
up is the argument itself, a DNS name, and no label of it is an address. -/
theorem classifyAddress_protects (c : Codec) (arg : String) :
    ((∃ addr, classifyAddress c arg = .ok (.address addr)) ↔ (c.parseAddr arg).isOk = true) ∧
    (∀ addr, classifyAddress c arg = .ok (.address addr) → addr = arg) ∧
    (∀ r name, name ∈ (resolveAddress c r arg).1 ∨ name ∈ (validatedAddress c r arg).1 →
      classifyAddress c arg = .ok (.dnsName name)) ∧
    ∀ name, classifyAddress c arg = .ok (.dnsName name) →
      name = arg ∧ IsDnsName (stripDot arg.toList) ∧
        ∀ label ∈ labels arg.toList, accepts c label = false := by
  refine ⟨classifyAddress_address, ?_, ?_, fun name h => classifyAddress_dnsName h⟩
  · intro addr h
    rw [classifyAddress, if_pos (classifyAddress_address.1 ⟨addr, h⟩)] at h
    cases h
    rfl
  · rintro r name (h | h)
    · exact mem_resolveAddress h
    · exact mem_validatedAddress h

/-- A name with a dot at its end. -/
theorem classifyAddress_protects_name :
    let arg := "tc-server.example.com."
    IsDnsName (stripDot arg.toList) ∧
      ∀ label ∈ labels arg.toList, accepts standard label = false :=
  ((classifyAddress_protects standard _).2.2.2 "tc-server.example.com." (by decide +kernel)).2

end Tailcat.Cli
