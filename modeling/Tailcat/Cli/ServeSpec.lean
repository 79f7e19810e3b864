import Tailcat.Net.Addr
import Tailcat.Text
import Mathlib.Data.Finset.Sort
import Mathlib.Data.List.AList

/-!
# What to serve

`parseServeSpec` reads the ports and services of the `serve` command, and `portRanges` turns a set
of ports into the ranges of the packet filter.

`portRanges_spec` says that the ranges are sorted, disjoint, not even adjacent, and cover exactly
the set.

A part of the list is a service by name, a port, a range of ports or a mapping of a port to a
target, in the order in which the source tries them, with the source's messages for what is refused.
The set of ports is a finite set and not a tree, since only its elements in their order matter.

`portRanges` goes over the ports in order and extends the last range by a port that follows it;
65535 has no successor, and the source checks for it (`checkedSucc`).  The proof is by induction
from the end of the list: the ranges of the ports so far are those of the specification
(`RangesOf.extend`).  That the parse does not depend on the order of the parts is in
`Cli.SpecOrder`.
-/

namespace Tailcat.Cli

open Net (Port)

/-! ### Ports -/

/-- A text between double quotes, as an error shows it. -/
def quoted (s : List Char) : String := "\"" ++ String.ofList s ++ "\""

/-- The number written by decimal digits. -/
def decimal (s : List Char) : ℕ := s.foldl (fun n c => 10 * n + (c.toNat - '0'.toNat)) 0

/-- A port in decimal digits. -/
def decimalPort (value : List Char) (allowZero : Bool) : Except String Port :=
  if value = [] ∨ ¬value.all Char.isDigit then .error s!"invalid port {quoted value}"
  else if 65535 < decimal value then .error s!"invalid port {quoted value}"
  else if decimal value = 0 ∧ !allowZero then .error s!"invalid port {quoted value}"
  else .ok (UInt16.ofNat (decimal value))

/-- The ports from `lo` to `hi`, both included. -/
def portsBetween (lo hi : Port) : Finset Port :=
  ((List.range' lo.toNat (hi.toNat + 1 - lo.toNat)).map UInt16.ofNat).toFinset

/-! ### Specifications -/

/-- The ports and services to serve, and where ports are forwarded to if not to `localhost`. -/
structure ServeSpec where
  ports : Finset Port := ∅
  targets : AList fun _ : Port => String := ∅
  services : Finset String := ∅

/-- The services that have a name. -/
def namedServices : List String := ["exec", "perf", "exit-node", "ssh", "no-auth-ssh", "files"]

/-- The target of a mapped port: a port of `localhost`, or a host and a port. -/
def mappingTarget (target : List Char) : Except String String := do
  if target.all Char.isDigit ∧ target ≠ [] then
    let port ← decimalPort target true
    return s!"localhost:{port}"
  else
    match rsplitOnce ':' target with
    | none => .error "mapping target must be a port or host:port"
    | some (host, p) =>
      if host = [] ∨ (host.contains ':' ∧ ¬(host.head? = some '[' ∧ host.getLast? = some ']')) then
        .error "invalid mapping target"
      else
        let port ← decimalPort p false
        return s!"{String.ofList host}:{port}"

/-- Add one part of a specification. -/
def addPart (spec : ServeSpec) (part : List Char) : Except String ServeSpec :=
  if part = "all".toList then .ok { spec with ports := spec.ports ∪ portsBetween 1 65535 }
  else if String.ofList part ∈ namedServices then
    .ok { spec with services := insert (String.ofList part) spec.services }
  else if part.contains ':' then do
    let (port, target) := (splitOnce ':' part).getD (part, [])
    let port ← decimalPort port false
    let target ← mappingTarget target
    match spec.targets.lookup port with
    | some old =>
      if old ≠ target then .error s!"port {port} is mapped to both {old} and {target}"
      else .ok { spec with
        targets := spec.targets.insert port target
        ports := insert port spec.ports }
    | none =>
      .ok { spec with
        targets := spec.targets.insert port target
        ports := insert port spec.ports }
  else do
    let (a, b) := (splitOnce '-' part).getD (part, part)
    let lo ← match decimalPort a true with
      | .ok lo => .ok lo
      | .error _ => .error (quoted part ++ " is not a known named service or port " ++
          "(want all, no-auth-ssh, files, exit-node)")
    let hi ← decimalPort b true
    .ok { spec with ports := spec.ports ∪ portsBetween (min lo hi) (max lo hi) }

/-- Read a specification. -/
def parseServeSpec (value : List Char) : Except String ServeSpec :=
  if value = [] then .ok {}
  else ((splitOn ',' (trim value)).map trim).foldlM addPart {}

/-! ### Ranges -/

/-- `u16::checked_add(1)`. -/
def checkedSucc (p : Port) : Option Port := if p = 65535 then none else some (p + 1)

/-- Add a port behind all ranges: it extends the last one or starts one of its own. -/
def extendRanges (ranges : List (Port × Port)) (p : Port) : List (Port × Port) :=
  match ranges.getLast? with
  | some last =>
    if checkedSucc last.2 = some p then ranges.dropLast ++ [(last.1, p)] else ranges ++ [(p, p)]
  | none => ranges ++ [(p, p)]

/-- The ranges of a set of ports. -/
def portRanges (ports : Finset Port) : List (Port × Port) :=
  (ports.sort (· ≤ ·)).foldl extendRanges []

/-- The ranges are sorted and non-empty, with a gap between any two, and cover the set. -/
structure RangesOf (ranges : List (Port × Port)) (ports : Port → Prop) : Prop where
  /-- No range is empty. -/
  le : ∀ r ∈ ranges, r.1 ≤ r.2
  /-- A range ends at least two below the start of the next. -/
  gap : ranges.Pairwise fun r r' => r.2.toNat + 1 < r'.1.toNat
  /-- The ports in the ranges are those of the set. -/
  mem_iff : ∀ p, (∃ r ∈ ranges, r.1 ≤ p ∧ p ≤ r.2) ↔ ports p

theorem checkedSucc_eq_some {p q : Port} : checkedSucc p = some q ↔ p.toNat + 1 = q.toNat := by
  unfold checkedSucc
  have hp := p.toNat_lt
  have hq := q.toNat_lt
  split_ifs with h
  · subst h
    have h65535 : (65535 : Port).toNat = 65535 := rfl
    rw [h65535]
    constructor
    · intro h
      cases h
    · omega
  · have hne : p.toNat ≠ 65535 := fun h' => h (UInt16.toNat_inj.1 h')
    rw [Option.some_inj, ← UInt16.toNat_inj, UInt16.toNat_add]
    have h1 : (1 : Port).toNat = 1 := rfl
    rw [h1, Nat.mod_eq_of_lt (by omega)]

theorem RangesOf.extend {ranges : List (Port × Port)} {ports : Port → Prop} {p : Port}
    (h : RangesOf ranges ports) (hp : ∀ q, ports q → q < p) :
    RangesOf (extendRanges ranges p) fun q => ports q ∨ q = p := by
  rcases List.eq_nil_or_concat ranges with rfl | ⟨init, last, rfl⟩
  · refine ⟨by simp [extendRanges], by simp [extendRanges], fun q => ?_⟩
    have hnone := h.mem_iff q
    simp only [List.not_mem_nil, false_and, exists_false, false_iff] at hnone
    simp only [extendRanges, List.getLast?_nil, List.nil_append, List.mem_singleton,
      exists_eq_left, hnone, false_or]
    rw [← UInt16.toNat_inj, UInt16.le_iff_toNat_le, UInt16.le_iff_toNat_le]
    omega
  · rw [List.concat_eq_append] at h ⊢
    have hle := h.le last (by simp)
    have hlast : last.2 < p := hp _ ((h.mem_iff _).1 ⟨last, by simp, hle, UInt16.le_refl _⟩)
    obtain ⟨hinit, -, hgap⟩ := List.pairwise_append.1 h.gap
    rw [UInt16.le_iff_toNat_le] at hle
    rw [UInt16.lt_iff_toNat_lt] at hlast
    have hmem : ∀ q, ports q ↔ (∃ r ∈ init, r.1 ≤ q ∧ q ≤ r.2) ∨ (last.1 ≤ q ∧ q ≤ last.2) := by
      intro q
      rw [← h.mem_iff q]
      simp only [List.mem_append, List.mem_singleton, or_and_right, exists_or, exists_eq_left]
    simp only [extendRanges, List.getLast?_concat, List.dropLast_concat, checkedSucc_eq_some]
    split_ifs with hsucc
    · -- the port extends the last range
      refine ⟨?_, List.pairwise_append.2 ⟨hinit, by simp, ?_⟩, fun q => ?_⟩
      · simp only [List.mem_append, List.mem_singleton]
        rintro r (hr | rfl)
        · exact h.le r (by simp [hr])
        · exact UInt16.le_iff_toNat_le.2 (show last.1.toNat ≤ p.toNat by omega)
      · intro r hr r' hr'
        obtain rfl := List.mem_singleton.1 hr'
        exact hgap r hr last (by simp)
      · simp only [List.mem_append, List.mem_singleton, or_and_right, exists_or, exists_eq_left,
          hmem q, or_assoc]
        refine or_congr_right ?_
        rw [UInt16.le_iff_toNat_le, UInt16.le_iff_toNat_le, UInt16.le_iff_toNat_le,
          ← UInt16.toNat_inj]
        omega
    · -- it starts a range of its own
      refine ⟨?_, List.pairwise_append.2 ⟨h.gap, by simp, ?_⟩, fun q => ?_⟩
      · intro r hr
        rcases List.mem_append.1 hr with hr | hr
        · exact h.le r hr
        · obtain rfl := List.mem_singleton.1 hr
          exact UInt16.le_refl p
      · intro r hr r' hr'
        obtain rfl := List.mem_singleton.1 hr'
        rcases List.mem_append.1 hr with hr | hr
        · have := hgap r hr last (by simp)
          show r.2.toNat + 1 < p.toNat
          omega
        · obtain rfl := List.mem_singleton.1 hr
          show r.2.toNat + 1 < p.toNat
          omega
      · rw [← h.mem_iff q]
        generalize init ++ [last] = ranges
        simp only [List.mem_append, List.mem_singleton, or_and_right, exists_or, exists_eq_left]
        refine or_congr_right ?_
        rw [UInt16.le_iff_toNat_le, UInt16.le_iff_toNat_le, ← UInt16.toNat_inj]
        omega

theorem rangesOf_foldl (l : List Port) (hl : l.Pairwise (· < ·)) :
    RangesOf (l.foldl extendRanges []) (· ∈ l) := by
  induction l using List.reverseRecOn with
  | nil => exact ⟨by simp, by simp, by simp⟩
  | append_singleton l p ih =>
    obtain ⟨hinit, -, hlt⟩ := List.pairwise_append.1 hl
    rw [List.foldl_append]
    simpa [or_comm] using (ih hinit).extend fun q hq => hlt q hq p (by simp)

/-- **The ranges of a set of ports** are sorted, with a gap between any two, and cover exactly the
set. -/
theorem portRanges_spec (ports : Finset Port) : RangesOf (portRanges ports) (· ∈ ports) := by
  have h := rangesOf_foldl (ports.sort (· ≤ ·)) ?_
  · simpa only [portRanges, Finset.mem_sort] using h
  · have hsort := Finset.pairwise_sort ports (· ≤ ·)
    have hnodup := Finset.sort_nodup ports (· ≤ ·)
    refine (hsort.and hnodup).imp fun {a b} hab => ?_
    rw [UInt16.lt_iff_toNat_lt]
    have hne : a.toNat ≠ b.toNat := fun h => hab.2 (UInt16.toNat_inj.1 h)
    have hle := UInt16.le_iff_toNat_le.1 hab.1
    omega

example : [0, 80, 81, 443, 65534, 65535].foldl extendRanges [] =
    [(0, 0), (80, 81), (443, 443), (65534, 65535)] := by
  decide

end Tailcat.Cli
