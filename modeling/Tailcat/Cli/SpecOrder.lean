import Tailcat.Cli.ServeSpec
import Tailcat.Lib.Program

/-!
# The order of a serve specification

A specification is a list of parts, and what it says is what its parts say: it is accepted if each
part can be read and no port is mapped twice, to different targets (`foldlM_addPart`).  So neither
the order of the parts nor repetitions matter (`serve_spec_unordered`).

The empty specification is accepted although its one part, the empty text, is none.

A part is read to its meaning first (`readPart`), which does not depend on what came before, and
then merged into what there is.  So a specification is accepted or refused by a condition on the set
of its meanings (`Acceptable`), and what it serves is their union.  The messages of two refusals may
differ, since the first bad part is reported: the outcomes are the same up to the message
(`SameOutcome`).
-/

namespace Tailcat.Cli

open Net (Port)

/-! ### Parts -/

/-- What a part says. -/
inductive Meaning where
  | all
  | service (name : String)
  | mapping (port : Port) (target : String)
  | range (lo hi : Port)
  deriving DecidableEq, Repr

/-- The port is one of those to serve. -/
def Meaning.Serves : Meaning → Port → Prop
  | .all, p => 1 ≤ p
  | .service _, _ => False
  | .mapping port _, p => p = port
  | .range lo hi, p => lo ≤ p ∧ p ≤ hi ∨ hi ≤ p ∧ p ≤ lo

/-- The first half of `addPart`: a part is read. -/
def readPart (part : List Char) : Except String Meaning :=
  if part = "all".toList then .ok .all
  else if String.ofList part ∈ namedServices then .ok (.service (String.ofList part))
  else if part.contains ':' then do
    let (port, target) := (splitOnce ':' part).getD (part, [])
    let port ← decimalPort port false
    let target ← mappingTarget target
    return .mapping port target
  else do
    let (a, b) := (splitOnce '-' part).getD (part, part)
    let lo ← match decimalPort a true with
      | .ok lo => .ok lo
      | .error _ => .error (quoted part ++ " is not a known named service or port " ++
          "(want all, no-auth-ssh, files, exit-node)")
    let hi ← decimalPort b true
    return .range lo hi

/-- The other half: what it says is added. -/
def merge (spec : ServeSpec) : Meaning → Except String ServeSpec
  | .all => .ok { spec with ports := spec.ports ∪ portsBetween 1 65535 }
  | .service name => .ok { spec with services := insert name spec.services }
  | .mapping port target =>
    match spec.targets.lookup port with
    | some old =>
      if old ≠ target then .error s!"port {port} is mapped to both {old} and {target}"
      else .ok { spec with
        targets := spec.targets.insert port target
        ports := insert port spec.ports }
    | none =>
      .ok { spec with
        targets := spec.targets.insert port target
        ports := insert port spec.ports }
  | .range lo hi => .ok { spec with ports := spec.ports ∪ portsBetween (min lo hi) (max lo hi) }

theorem addPart_eq_merge (spec : ServeSpec) (part : List Char) :
    addPart spec part = readPart part >>= merge spec := by
  unfold addPart readPart
  by_cases hall : part = "all".toList
  · rw [if_pos hall, if_pos hall]
    rfl
  by_cases hservice : String.ofList part ∈ namedServices
  · rw [if_neg hall, if_pos hservice, if_neg hall, if_pos hservice]
    rfl
  rw [if_neg hall, if_neg hservice, if_neg hall, if_neg hservice]
  by_cases hmapping : part.contains ':'
  · rw [if_pos hmapping, if_pos hmapping]
    simp only [bind_assoc, pure_bind]
    rfl
  · rw [if_neg hmapping, if_neg hmapping]
    dsimp only
    cases decimalPort ((splitOnce '-' part).getD (part, part)).1 true with
    | error _ => rfl
    | ok lo =>
      cases decimalPort ((splitOnce '-' part).getD (part, part)).2 true <;> rfl

/-! ### What parts say together -/

/-- A part of a specification. -/
abbrev Part := { part : List Char // ',' ∉ part }

/-- A part says this. -/
def Part.Says (part : Part) (m : Meaning) : Prop := readPart (trim part.1) = .ok m

/-- What a specification says is what its parts say. -/
structure SpecOf (parts : List Part) (spec : ServeSpec) : Prop where
  ports : ∀ port, port ∈ spec.ports ↔ ∃ part ∈ parts, ∃ m, part.Says m ∧ m.Serves port
  targets : ∀ port target, spec.targets.lookup port = some target ↔
    ∃ part ∈ parts, part.Says (.mapping port target)
  services : ∀ name, name ∈ spec.services ↔ ∃ part ∈ parts, part.Says (.service name)

/-- All parts can be read, and no port is mapped to two targets. -/
structure Acceptable (parts : List Part) : Prop where
  readable : ∀ part ∈ parts, ∃ m, part.Says m
  consistent : ∀ part ∈ parts, ∀ part' ∈ parts, ∀ port target target',
    part.Says (.mapping port target) → part'.Says (.mapping port target') → target = target'

/-- The parts, with commas between them. -/
def join (parts : List Part) : List Char := [','].intercalate (parts.map (·.1))

/-- The same ports, targets and services. -/
structure ServeSpec.Same (s t : ServeSpec) : Prop where
  ports : s.ports = t.ports
  targets : ∀ port, s.targets.lookup port = t.targets.lookup port
  services : s.services = t.services

/-- Both are refused, or both are accepted and the same. -/
def SameOutcome : Except String ServeSpec → Except String ServeSpec → Prop
  | .ok s, .ok t => s.Same t
  | .error _, .error _ => True
  | _, _ => False

section

variable {parts parts' : List Part} {part : Part} {spec spec' : ServeSpec} {m : Meaning}

theorem Part.Says.unique {m' : Meaning} (h : part.Says m) (h' : part.Says m') : m = m' :=
  Except.ok.inj (h.symm.trans h')

theorem mem_portsBetween {lo hi p : Port} : p ∈ portsBetween lo hi ↔ lo ≤ p ∧ p ≤ hi := by
  have hp := p.toNat_lt
  have hhi := hi.toNat_lt
  simp only [portsBetween, List.mem_toFinset, List.mem_map, List.mem_range'_1,
    UInt16.le_iff_toNat_le]
  constructor
  · rintro ⟨n, hn, rfl⟩
    rw [UInt16.toNat_ofNat', Nat.mod_eq_of_lt (by omega)]
    omega
  · intro h
    exact ⟨p.toNat, by omega, UInt16.ofNat_toNat⟩

theorem mem_portsBetween_min_max {lo hi p : Port} :
    p ∈ portsBetween (min lo hi) (max lo hi) ↔ (Meaning.range lo hi).Serves p := by
  have hmin : min lo hi = if lo ≤ hi then lo else hi := rfl
  have hmax : max lo hi = if lo ≤ hi then hi else lo := rfl
  rw [mem_portsBetween, Meaning.Serves, hmin, hmax]
  simp only [UInt16.le_iff_toNat_le]
  split_ifs with h
  · refine ⟨.inl, ?_⟩
    rintro (hp | hp)
    · exact hp
    · omega
  · refine ⟨.inr, ?_⟩
    rintro (hp | hp)
    · omega
    · exact hp

/-- The ports of a specification with one part more. -/
theorem specOf_concat_ports (hspec : SpecOf parts spec) (hm : part.Says m) (port : Port) :
    (∃ part' ∈ parts ++ [part], ∃ m, part'.Says m ∧ m.Serves port) ↔
      port ∈ spec.ports ∨ m.Serves port := by
  rw [hspec.ports]
  constructor
  · rintro ⟨part', hpart', m', hm', hserves⟩
    rcases List.mem_append.1 hpart' with hpart' | hpart'
    · exact .inl ⟨part', hpart', m', hm', hserves⟩
    · rw [List.mem_singleton.1 hpart'] at hm'
      exact .inr (hm.unique hm' ▸ hserves)
  · rintro (⟨part', hpart', m', hm', hserves⟩ | hserves)
    · exact ⟨part', List.mem_append_left _ hpart', m', hm', hserves⟩
    · exact ⟨part, List.mem_append_right _ List.mem_cons_self, m, hm, hserves⟩

/-- What one part more says. -/
theorem says_concat (hm : part.Says m) (m' : Meaning) :
    (∃ part' ∈ parts ++ [part], part'.Says m') ↔ (∃ part' ∈ parts, part'.Says m') ∨ m' = m := by
  constructor
  · rintro ⟨part', hpart', hm'⟩
    rcases List.mem_append.1 hpart' with hpart' | hpart'
    · exact .inl ⟨part', hpart', hm'⟩
    · rw [List.mem_singleton.1 hpart'] at hm'
      exact .inr (hm'.unique hm)
  · rintro (⟨part', hpart', hm'⟩ | rfl)
    · exact ⟨part', List.mem_append_left _ hpart', hm'⟩
    · exact ⟨part, List.mem_append_right _ List.mem_cons_self, hm⟩

/-- What a specification says with one part more. -/
structure Adds (spec : ServeSpec) (m : Meaning) (spec' : ServeSpec) : Prop where
  ports : ∀ port, port ∈ spec'.ports ↔ port ∈ spec.ports ∨ m.Serves port
  targets : ∀ port target, spec'.targets.lookup port = some target ↔
    spec.targets.lookup port = some target ∨ .mapping port target = m
  services : ∀ name, name ∈ spec'.services ↔ name ∈ spec.services ∨ .service name = m

theorem SpecOf.concat (hspec : SpecOf parts spec) (hm : part.Says m) (h : Adds spec m spec') :
    SpecOf (parts ++ [part]) spec' where
  ports port := by rw [specOf_concat_ports hspec hm, h.ports]
  targets port target := by rw [says_concat hm, h.targets, hspec.targets]
  services name := by rw [says_concat hm, h.services, hspec.services]

/-- The port that is mapped has no other target. -/
def Free (spec : ServeSpec) (m : Meaning) : Prop :=
  ∀ port target old, m = .mapping port target → spec.targets.lookup port = some old → old = target

theorem adds_mapping {port : Port} {target : String} (hfree : Free spec (.mapping port target)) :
    Adds spec (.mapping port target)
      { spec with
        targets := spec.targets.insert port target
        ports := insert port spec.ports } where
  ports p := by rw [Finset.mem_insert, or_comm, Meaning.Serves]
  targets p t := by
    by_cases hp : p = port
    · subst hp
      rw [AList.lookup_insert, Option.some.injEq, Meaning.mapping.injEq]
      constructor
      · intro h
        exact .inr ⟨rfl, h.symm⟩
      · rintro (h | ⟨-, h⟩)
        · exact (hfree p target t rfl h).symm
        · exact h.symm
    · rw [AList.lookup_insert_ne hp]
      refine ⟨.inl, ?_⟩
      rintro (h | h)
      · exact h
      · exact absurd (Meaning.mapping.inj h).1 hp
  services name := by
    refine ⟨.inl, ?_⟩
    rintro (h | h)
    · exact h
    · cases h

/-- **What a part says is added**, unless it maps a port that has another target. -/
theorem merge_adds (hfree : Free spec m) : ∃ spec', merge spec m = .ok spec' ∧ Adds spec m spec' := by
  have hno {p q : Prop} (h : ¬q) : p ↔ p ∨ q := (or_iff_left h).symm
  cases m with
  | all =>
    refine ⟨_, rfl, fun port => ?_, fun port target => hno (by rintro ⟨⟩),
      fun name => hno (by rintro ⟨⟩)⟩
    have hport := port.toNat_lt
    have hmax : (65535 : Port).toNat = 65535 := rfl
    have hle : port ≤ 65535 := UInt16.le_iff_toNat_le.2 (by omega)
    rw [Finset.mem_union, mem_portsBetween, and_iff_left hle, Meaning.Serves]
  | service name =>
    refine ⟨_, rfl, fun port => hno id, fun port target => hno (by rintro ⟨⟩), fun name' => ?_⟩
    rw [Finset.mem_insert, or_comm, Meaning.service.injEq]
  | mapping port target =>
    rw [merge]
    cases hold : spec.targets.lookup port with
    | none => exact ⟨_, rfl, adds_mapping hfree⟩
    | some old =>
      have heq : ¬old ≠ target := not_not.2 (hfree port target old rfl hold)
      exact ⟨_, if_neg heq, adds_mapping hfree⟩
  | range lo hi =>
    refine ⟨_, rfl, fun port => ?_, fun port target => hno (by rintro ⟨⟩),
      fun name => hno (by rintro ⟨⟩)⟩
    rw [Finset.mem_union, mem_portsBetween_min_max]

theorem free_of_merge (h : merge spec m = .ok spec') : Free spec m := by
  rintro port target old rfl hold
  simp only [merge, hold] at h
  by_contra hne
  rw [if_pos hne] at h
  cases h

theorem specOf_nil : SpecOf [] {} where
  ports port := by simp
  targets port target := by
    refine iff_of_false (fun h => by cases h) ?_
    rintro ⟨part, hpart, -⟩
    cases hpart
  services name := by simp

/-- **A specification is accepted** if and only if its parts are acceptable, and says what they
say. -/
theorem foldlM_addPart (parts : List Part) :
    (Acceptable parts →
      ∃ spec, (parts.map fun part => trim part.1).foldlM addPart {} = .ok spec) ∧
    ∀ spec, (parts.map fun part => trim part.1).foldlM addPart {} = .ok spec →
      Acceptable parts ∧ SpecOf parts spec := by
  induction parts using List.reverseRecOn with
  | nil =>
    refine ⟨fun _ => ⟨{}, rfl⟩, fun spec h => ?_⟩
    cases h
    exact ⟨⟨by simp, by simp⟩, specOf_nil⟩
  | append_singleton parts part ih =>
    obtain ⟨ihaccept, ihspec⟩ := ih
    rw [List.map_append, List.foldlM_append]
    simp only [List.map_cons, List.map_nil, List.foldlM_cons, List.foldlM_nil, bind_pure,
      addPart_eq_merge]
    constructor
    · intro h
      have hsub : ∀ p ∈ parts, p ∈ parts ++ [part] := fun p => List.mem_append_left _
      have hpart : part ∈ parts ++ [part] := List.mem_append_right _ List.mem_cons_self
      obtain ⟨spec, hok⟩ := ihaccept ⟨fun p hp => h.readable p (hsub p hp),
        fun p hp p' hp' => h.consistent p (hsub p hp) p' (hsub p' hp')⟩
      obtain ⟨m, hm⟩ := h.readable part hpart
      -- the parts before have no other target for the port
      have hfree : Free spec m := by
        rintro port target old rfl hold
        obtain ⟨p, hp, hsays⟩ := ((ihspec spec hok).2.targets port old).1 hold
        exact h.consistent p (hsub p hp) part hpart port old target hsays hm
      obtain ⟨spec', hmerge, -⟩ := merge_adds hfree
      exact ⟨spec', by rw [hok, Program.except_ok_bind, hm, Program.except_ok_bind, hmerge]⟩
    · intro spec' h
      obtain ⟨spec, hok, h⟩ := Program.except_bind_eq_ok.1 h
      obtain ⟨m, hm, hmerge⟩ := Program.except_bind_eq_ok.1 h
      obtain ⟨haccept, hspec⟩ := ihspec spec hok
      obtain ⟨spec₁, hmerge₁, hadds⟩ := merge_adds (free_of_merge hmerge)
      rw [hmerge, Except.ok.injEq] at hmerge₁
      rw [← hmerge₁] at hadds
      have hspec' : SpecOf (parts ++ [part]) spec' := hspec.concat hm hadds
      refine ⟨⟨fun p hp => ?_, fun p hp p' hp' port target target' hsays hsays' => ?_⟩, hspec'⟩
      · rcases List.mem_append.1 hp with hp | hp
        · exact haccept.readable p hp
        · exact ⟨m, List.mem_singleton.1 hp ▸ hm⟩
      · -- both targets are the one in the specification
        have hlookup := (hspec'.targets port target).2 ⟨p, hp, hsays⟩
        have hlookup' := (hspec'.targets port target').2 ⟨p', hp', hsays'⟩
        exact Option.some.inj (hlookup.symm.trans hlookup')

end

/-! ### Parts in a text -/

/-- The parts of a text are those it was joined from. -/
theorem splitOn_join {parts : List Part} (h : parts ≠ []) :
    splitOn ',' (join parts) = parts.map (·.1) := by
  induction parts with
  | nil => exact absurd rfl h
  | cons part parts ih =>
    cases parts with
    | nil =>
      have hjoin : join [part] = part.1 := by simp [join, List.intercalate]
      rw [hjoin, splitOn_of_notMem part.2]
      rfl
    | cons part' parts =>
      have hjoin : join (part :: part' :: parts) = part.1 ++ ',' :: join (part' :: parts) := by
        simp [join, List.intercalate]
      rw [hjoin, splitOn_append, splitOn_of_notMem part.2, ih (by simp)]
      rfl

/-! ### Whole specifications -/

/-- The empty specification says nothing; any other is the parts it is joined from. -/
theorem parseServeSpec_join (parts : List Part) : parseServeSpec (join parts) =
    if join parts = [] then .ok {} else (parts.map fun part => trim part.1).foldlM addPart {} := by
  rw [parseServeSpec]
  split_ifs with h
  · rfl
  · have hparts : parts ≠ [] := by
      rintro rfl
      exact h rfl
    rw [map_trim_splitOn_trim (by decide), splitOn_join hparts, List.map_map]
    rfl

/-- The empty specification is joined from no part, or from the empty text. -/
theorem of_join_eq_nil {parts : List Part} (h : join parts = []) :
    parts = [] ∨ ∃ part : Part, parts = [part] ∧ part.1 = [] := by
  by_cases hparts : parts = []
  · exact .inl hparts
  · have hsplit := splitOn_join hparts
    rw [h, splitOn] at hsplit
    obtain ⟨part, rfl⟩ := List.length_eq_one_iff.1 (by simpa using congrArg List.length hsplit.symm)
    exact .inr ⟨part, rfl, (List.cons.inj hsplit).1.symm⟩

/-- Its parts are in one order only. -/
theorem eq_of_perm_of_join_eq_nil {parts parts' : List Part} (h : join parts = [])
    (hperm : parts'.Perm parts) : parts' = parts := by
  rcases of_join_eq_nil h with rfl | ⟨part, rfl, -⟩
  · exact hperm.eq_nil
  · exact hperm.eq_singleton

/-- Its parts say nothing. -/
theorem specOf_of_join_eq_nil {parts : List Part} (h : join parts = []) : SpecOf parts {} := by
  rcases of_join_eq_nil h with rfl | ⟨part, rfl, hpart⟩
  · exact specOf_nil
  have hsays (m : Meaning) : ¬part.Says m := by
    have herror : readPart (trim []) = .error ("\"\" is not a known named service or port " ++
        "(want all, no-auth-ssh, files, exit-node)") := by
      decide +kernel
    rw [Part.Says, hpart, herror]
    exact fun hok => by cases hok
  refine ⟨fun port => ?_, fun port target => ?_, fun name => ?_⟩
  · refine iff_of_false (Finset.notMem_empty port) ?_
    rintro ⟨part', hpart', m, hm, -⟩
    exact hsays m (List.mem_singleton.1 hpart' ▸ hm)
  · refine iff_of_false (fun hlookup => by cases hlookup) ?_
    rintro ⟨part', hpart', hm⟩
    exact hsays _ (List.mem_singleton.1 hpart' ▸ hm)
  · refine iff_of_false (Finset.notMem_empty name) ?_
    rintro ⟨part', hpart', hm⟩
    exact hsays _ (List.mem_singleton.1 hpart' ▸ hm)

/-- The outcome for parts depends on which they are, not on their order or number. -/
theorem sameOutcome_of_mem_iff {parts parts' : List Part} (h : ∀ part, part ∈ parts' ↔ part ∈ parts) :
    SameOutcome ((parts'.map fun part => trim part.1).foldlM addPart {})
      ((parts.map fun part => trim part.1).foldlM addPart {}) := by
  obtain ⟨hok, hspec⟩ := foldlM_addPart parts
  obtain ⟨hok', hspec'⟩ := foldlM_addPart parts'
  have haccept : Acceptable parts' ↔ Acceptable parts := by
    have hexists : ∀ P : Part → Prop, (∀ part ∈ parts', P part) ↔ ∀ part ∈ parts, P part :=
      fun P => forall_congr' fun part => imp_congr_left (h part)
    constructor
    · intro ⟨hread, hconsistent⟩
      exact ⟨(hexists _).1 hread, (hexists _).1 fun p hp => (hexists _).1 (hconsistent p hp)⟩
    · intro ⟨hread, hconsistent⟩
      exact ⟨(hexists _).2 hread, (hexists _).2 fun p hp => (hexists _).2 (hconsistent p hp)⟩
  have hsays : ∀ P : Part → Prop, (∃ part ∈ parts', P part) ↔ ∃ part ∈ parts, P part :=
    fun P => exists_congr fun part => and_congr_left fun _ => h part
  cases hfold' : (parts'.map fun part => trim part.1).foldlM addPart {} with
  | error e' =>
    cases hfold : (parts.map fun part => trim part.1).foldlM addPart {} with
    | error e => trivial
    | ok spec =>
      obtain ⟨spec', hspec'⟩ := hok' (haccept.2 (hspec spec hfold).1)
      rw [hfold'] at hspec'
      cases hspec'
  | ok spec' =>
    cases hfold : (parts.map fun part => trim part.1).foldlM addPart {} with
    | error e =>
      obtain ⟨spec, hspec⟩ := hok (haccept.1 (hspec' spec' hfold').1)
      rw [hfold] at hspec
      cases hspec
    | ok spec =>
      obtain ⟨-, hthis⟩ := hspec spec hfold
      obtain ⟨-, hother⟩ := hspec' spec' hfold'
      refine ⟨Finset.ext fun port => ?_, fun port => Option.ext fun target => ?_,
        Finset.ext fun name => ?_⟩
      · rw [hthis.ports, hother.ports, hsays]
      · rw [hthis.targets, hother.targets, hsays]
      · rw [hthis.services, hother.services, hsays]

theorem SameOutcome.refl (r : Except String ServeSpec) : SameOutcome r r := by
  cases r
  · trivial
  · exact ⟨rfl, fun _ => rfl, rfl⟩

/-- **A serve specification means what its parts mean**: their order does not matter, nor do
repetitions unless the specification is the empty text; and where it is accepted, it serves and maps
what its parts say. -/
theorem serve_spec_unordered (parts : List Part) :
    (∀ parts', parts'.Perm parts →
      SameOutcome (parseServeSpec (join parts')) (parseServeSpec (join parts))) ∧
    (join parts ≠ [] → ∀ part ∈ parts, ∀ parts', parts'.Perm (part :: parts) →
      SameOutcome (parseServeSpec (join parts')) (parseServeSpec (join parts))) ∧
    ∀ spec, parseServeSpec (join parts) = .ok spec → SpecOf parts spec := by
  have hnonempty : ∀ parts', (∀ part, part ∈ parts' ↔ part ∈ parts) → join parts' ≠ [] →
      join parts ≠ [] →
        SameOutcome (parseServeSpec (join parts')) (parseServeSpec (join parts)) := by
    intro parts' hmem hjoin' hjoin
    rw [parseServeSpec_join, parseServeSpec_join, if_neg hjoin', if_neg hjoin]
    exact sameOutcome_of_mem_iff hmem
  refine ⟨fun parts' hperm => ?_, fun hjoin part hpart parts' hperm => ?_, fun spec h => ?_⟩
  · by_cases hjoin : join parts = []
    · rw [eq_of_perm_of_join_eq_nil hjoin hperm]
      exact .refl _
    · refine hnonempty parts' (fun part => hperm.mem_iff) (fun hjoin' => hjoin ?_) hjoin
      rw [eq_of_perm_of_join_eq_nil hjoin' hperm.symm]
      exact hjoin'
  · refine hnonempty parts' (fun part' => ?_) (fun hjoin' => hjoin ?_) hjoin
    · rw [hperm.mem_iff, List.mem_cons, or_iff_right_of_imp]
      rintro rfl
      exact hpart
    · -- two parts are joined with a comma
      have hlength := congrArg List.length (eq_of_perm_of_join_eq_nil hjoin' hperm.symm)
      have hpos := List.length_pos_of_mem hpart
      rcases of_join_eq_nil hjoin' with rfl | ⟨part', rfl, -⟩
      · simp at hlength
      · simp only [List.length_cons, List.length_nil] at hlength
        omega
  · rw [parseServeSpec_join] at h
    split_ifs at h with hjoin
    · cases h
      exact specOf_of_join_eq_nil hjoin
    · exact ((foldlM_addPart parts).2 spec h).2

/-- The empty text is accepted, but not when it is repeated. -/
theorem empty_spec_repeated : join [⟨[], by decide⟩] = [] ∧
    (parseServeSpec (join [⟨[], by decide⟩])).isOk = true ∧
    (parseServeSpec (join [⟨[], by decide⟩, ⟨[], by decide⟩])).isOk = false := by
  decide +kernel

end Tailcat.Cli
