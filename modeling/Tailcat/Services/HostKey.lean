import Tailcat.Lib.Drafts
import Tailcat.Text
import Tailcat.Lib.Transition

/-!
# The host key of the SSH server

Every process that serves SSH reads its host key from one file, or generates a key and publishes it
there.  The key is written to a file of its own, which then gets the path as a second name, so a
process that loses the race takes the key of the winner.

`run_hostKey` : whatever the processes do and wherever they stop, the path has one complete key that
never changes, and a call that succeeds returns it.

A file is never written after it got the path's name, since the name is given when the file is
complete (`link`), and nothing renames over it; the invariant follows each call from the file it has
made to the name.  Any number of processes take their operations in any order, and each may stop for
ever between two of them.  A process that stops may leave its temporary file behind, and nothing is
said of these.
-/

namespace Tailcat.Services.HostKey

open Transition

/-! ### The calls -/

/-- The keys and their format, PKCS#8 in PEM. -/
structure KeyFormat (Key : Type) where
  /-- `encode_pkcs8_pem`. -/
  encode : Key → Bytes
  /-- `decode_secret_key` of a text without a passphrase. -/
  decode : Bytes → Option Key

/-- A key is read back from its text. -/
def KeyFormat.Lawful {Key : Type} (f : KeyFormat Key) : Prop :=
  ∀ key, f.decode (f.encode key) = some key

/-- A key that is being published, and the temporary file for it. -/
structure Temporary (Key : Type) where
  name : String
  file : ℕ
  key : Key
  deriving DecidableEq

/-- How far a call of `host_key` is. -/
inductive Call (Key : Type)
  | start
  /-- There is no key. -/
  | missing
  /-- The directory is there. -/
  | generate
  /-- This many bytes are written. -/
  | write (t : Temporary Key) (written : ℕ)
  | sync (t : Temporary Key)
  | publish (t : Temporary Key)
  | cleanup (t : Temporary Key) (result : Except String Unit)
  | load
  | done (result : Except String Key)
  deriving DecidableEq

/-- One operation of a call, with what the system and the random generator choose. -/
structure Event (Key : Type) where
  /-- The call that goes on. -/
  call : ℕ
  /-- The error of the operation, if it fails. -/
  error : Option String := none
  /-- The key, if one is generated. -/
  key : Key
  /-- The number in the name of the temporary file. -/
  random : UInt64 := 0
  /-- The number of bytes a write takes. -/
  count : ℕ := 0

/-- The name of a temporary file. -/
def temporaryName (random : UInt64) : String :=
  String.ofList ('.' :: ("ssh-host-key-".toList ++ hex16 random))

variable {Key : Type} (f : KeyFormat Key) (path : String)

/-- Read a key. -/
def decodeKey (error : String) (pem : Bytes) : Except String Key :=
  match f.decode pem with
  | some key => .ok key
  | none => .error error

/-- Write some of what is left of a key. -/
def writeSome (t : Temporary Key) (written count : ℕ) (d : Directory) : Directory × Call Key :=
  match d.writeSome t.file (f.encode t.key) written count with
  | some (d, written) => (d, .write t written)
  | none => (d, .sync t)

/-- One operation of a call. -/
def step (e : Event Key) (d : Directory) : Call Key → Directory × Call Key
  | .start =>
    if e.error.isSome then (d, .done (.error "reading SSH host key"))
    else
      match d.read path with
      | some pem => (d, .done (decodeKey f "parsing SSH host key" pem))
      | none => (d, .missing)
  | .missing =>
    match e.error with
    | some err => (d, .done (.error err))
    | none => (d, .generate)
  | .generate =>
    match e.error with
    | some err => (d, .done (.error err))
    | none =>
      match d.createNew (temporaryName e.random) with
      | some (file, d) => (d, .write ⟨temporaryName e.random, file, e.key⟩ 0)
      | none => (d, .done (.error "File exists"))
  | .write t written =>
    match e.error with
    | some err => (d, .cleanup t (.error err))
    | none => writeSome f t written e.count d
  | .sync t =>
    match e.error with
    | some err => (d, .cleanup t (.error err))
    | none => (d, .publish t)
  | .publish t =>
    match e.error with
    | some err => (d, .cleanup t (.error err))
    | none =>
      match d.link t.name path with
      | .done d => (d, .cleanup t (.ok ()))
      -- another process was faster
      | .taken => (d, .cleanup t (.ok ()))
      | .missing => (d, .cleanup t (.error "No such file or directory"))
  | .cleanup t result =>
    (if e.error.isSome then d else d.unlink t.name,
      match result with
      | .ok () => .load
      | .error err => .done (.error err))
  | .load =>
    match if e.error.isSome then none else d.read path with
    | some pem => (d, .done (decodeKey f "loading SSH host key" pem))
    | none => (d, .done (.error "loading SSH host key"))
  | .done result => (d, .done result)

/-- The temporary file of a call, and what it has written of the key. -/
def Call.draft (f : KeyFormat Key) : Call Key → Option Draft
  | .write t written => some ⟨t.name, t.file, some ((f.encode t.key).take written)⟩
  | .sync t | .publish t => some ⟨t.name, t.file, some (f.encode t.key)⟩
  | .cleanup t _ => some ⟨t.name, t.file, none⟩
  | _ => none

variable {f path}

/-! ### What an operation does -/

theorem decodeKey_eq_ok {error : String} {pem : Bytes} {key : Key}
    (h : decodeKey f error pem = .ok key) : f.decode pem = some key := by
  unfold decodeKey at h
  split at h
  · rename_i key' hkey
    cases h
    exact hkey
  · cases h

theorem writeSome_drafting (t : Temporary Key) (n count : ℕ) (d : Directory) :
    Drafting (· = path) (· = path) False d (Call.draft f (.write t n)) (writeSome f t n count d).1
      ((writeSome f t n count d).2.draft f) := by
  simp only [writeSome]
  split
  · rename_i d' n' hsome
    exact .writeSome hsome
  · rename_i hnone
    simp only [Call.draft, Directory.take_of_writeSome hnone]
    exact .keep _

/-- Every operation of a call is one on its draft. -/
theorem step_drafting (hpath : ∀ random, temporaryName random ≠ path) (e : Event Key)
    (d : Directory) (c : Call Key) : Drafting (· = path) (· = path) False d (c.draft f)
      (step f path e d c).1 ((step f path e d c).2.draft f) := by
  cases c with
  | start =>
    simp only [step]
    split_ifs
    · exact .keep _
    · split
      · exact .keep _
      · exact .keep _
  | missing =>
    simp only [step]
    split
    · exact .keep _
    · exact .keep _
  | generate =>
    simp only [step]
    split
    · exact .keep _
    · split
      · rename_i file d' hcreate
        exact .create (hpath _) hcreate
      · exact .keep _
  | write t n =>
    simp only [step]
    split
    · exact .finish _
    · exact writeSome_drafting t n _ d
  | sync t =>
    simp only [step]
    split
    · exact .finish _
    · exact .keep _
  | publish t =>
    simp only [step]
    split
    · exact .finish _
    · split
      · rename_i d' hlink
        exact .link rfl rfl hlink
      · exact .finish _
      · exact .finish _
  | cleanup t result =>
    simp only [step]
    cases result <;> split_ifs
    · exact .forget _
    · exact .unlink ⟨t.name, t.file, none⟩
    · exact .forget _
    · exact .unlink ⟨t.name, t.file, none⟩
  | load =>
    simp only [step]
    split
    · exact .keep _
    · exact .keep _
  | done result => exact .keep _

/-- A key that a call returns is one that it has read. -/
theorem step_done {e : Event Key} {d : Directory} {c : Call Key} {key : Key}
    (h : (step f path e d c).2 = .done (.ok key)) :
    c = .done (.ok key) ∨ ∃ pem, d.read path = some pem ∧ f.decode pem = some key := by
  cases c with
  | start =>
    simp only [step] at h
    split_ifs at h
    · cases h
    · split at h
      · rename_i pem hpem
        exact .inr ⟨pem, hpem, decodeKey_eq_ok (Call.done.inj h)⟩
      · cases h
  | load =>
    simp only [step] at h
    split at h
    · rename_i pem hpem
      refine .inr ⟨pem, ?_, decodeKey_eq_ok (Call.done.inj h)⟩
      split_ifs at hpem
      exact hpem
    · cases h
  | done result => exact .inl h
  | missing =>
    simp only [step] at h
    split at h <;> cases h
  | generate =>
    simp only [step] at h
    split at h
    · cases h
    · split at h <;> cases h
  | write t n =>
    simp only [step] at h
    split at h
    · cases h
    · simp only [writeSome] at h
      split at h <;> cases h
  | sync t =>
    simp only [step] at h
    split at h <;> cases h
  | publish t =>
    simp only [step] at h
    split at h
    · cases h
    · split at h <;> cases h
  | cleanup t result =>
    cases result <;> cases h

/-- What is published is a complete key. -/
theorem encode_of_link {e : Event Key} {d : Directory} {c : Call Key} {t : Draft} {b : Bytes}
    (ht : c.draft f = some t) (hb : t.content = some b)
    (h : (step f path e d c).1.names.lookup path ≠ d.names.lookup path) :
    ∃ key, b = f.encode key := by
  cases c with
  | publish u =>
    cases ht
    exact ⟨u.key, (Option.some.inj hb).symm⟩
  | sync u =>
    cases ht
    exact ⟨u.key, (Option.some.inj hb).symm⟩
  | write u n =>
    refine absurd ?_ h
    simp only [step]
    split
    · rfl
    · simp only [writeSome]
      split
      · rename_i hsome
        exact congrArg (·.lookup path) (Directory.names_of_writeSome hsome)
      · rfl
  | cleanup u result =>
    cases ht
    cases hb
  | start => cases ht
  | missing => cases ht
  | generate => cases ht
  | load => cases ht
  | done => cases ht

/-! ### The processes -/

/-- The directory and the calls of all processes. -/
structure World (Key : Type) where
  dir : Directory
  calls : ℕ → Call Key

variable (f path)

/-- One operation of one call. -/
def World.step (w : World Key) (e : Event Key) : World Key :=
  let next := HostKey.step f path e w.dir (w.calls e.call)
  { dir := next.1, calls := Function.update w.calls e.call next.2 }

/-- Any number of calls that have not begun. -/
def World.init (dir : Directory) : World Key := { dir, calls := fun _ => .start }

/-- The world after some operations. -/
abbrev World.run (w : World Key) (es : List (Event Key)) : World Key :=
  Transition.run (World.step f path) w es

/-- What holds of the directory and the calls in every run. -/
structure Inv (w : World Key) : Prop where
  drafts : Drafted (· = path) False w.dir fun i => (w.calls i).draft f
  /-- The path has a complete key. -/
  published : ∀ pem, w.dir.read path = some pem → ∃ key, pem = f.encode key
  /-- A call has returned the key of the path. -/
  returned : ∀ i key, w.calls i = .done (.ok key) → w.dir.read path = some (f.encode key)

variable {f path} {w : World Key} {d' : Directory} {c' : Call Key} {i : ℕ}

/-! ### The invariant -/

/-- The key at the path stays there. -/
theorem read_of_drafting {o o' : Option Draft} {d : Directory}
    (h : Drafting (· = path) (· = path) False d o d' o')
    (ho : ∀ t, o = some t → t.Valid (· = path) False d) {pem : Bytes}
    (hpem : d.read path = some pem) : d'.read path = some pem := by
  rcases h.read ho rfl with ⟨-, hsame⟩ | ⟨-, hnone | hfalse, -⟩
  · exact hsame.trans hpem
  · obtain ⟨file, hfile, -⟩ := Directory.read_eq_some.1 hpem
    cases hfile.symm.trans hnone
  · exact hfalse.elim

/-- A key that is read from the path is the key of the path. -/
theorem Inv.read (hf : f.Lawful) (hI : Inv f path w) {pem : Bytes} {key : Key}
    (hpem : w.dir.read path = some pem) (hkey : f.decode pem = some key) :
    w.dir.read path = some (f.encode key) := by
  obtain ⟨key', rfl⟩ := hI.published pem hpem
  obtain rfl : key' = key := Option.some.inj ((hf key').symm.trans hkey)
  exact hpem

/-- One operation keeps the invariant and the key at the path. -/
theorem World.step_inv (hf : f.Lawful) (hpath : ∀ random, temporaryName random ≠ path)
    (hI : Inv f path w) (e : Event Key) : Inv f path (w.step f path e) ∧
      ∀ pem, w.dir.read path = some pem → (w.step f path e).dir.read path = some pem := by
  have hself : (w.step f path e).calls e.call =
      (HostKey.step f path e w.dir (w.calls e.call)).2 := Function.update_self _ _ _
  have hother : ∀ j, j ≠ e.call → (w.step f path e).calls j = w.calls j :=
    fun j hj => Function.update_of_ne hj _ _
  have ho := hI.drafts.valid e.call
  have hdrafting : Drafting (· = path) (· = path) False w.dir ((w.calls e.call).draft f)
      (w.step f path e).dir (((w.step f path e).calls e.call).draft f) := by
    rw [hself]
    exact step_drafting hpath e w.dir _
  have hkeeps : ∀ pem, w.dir.read path = some pem →
      (w.step f path e).dir.read path = some pem := fun pem => read_of_drafting hdrafting ho
  have hothers : ∀ j, j ≠ e.call → ((w.step f path e).calls j).draft f = (w.calls j).draft f :=
    fun j hj => by rw [hother j hj]
  -- no call cleans up a file that is not its own, so no draft loses its name
  refine ⟨⟨hI.drafts.step hdrafting hothers False.elim, fun pem hpem => ?_, fun j key hj => ?_⟩,
    hkeeps⟩
  · rcases hdrafting.read ho rfl with ⟨-, hsame⟩ | ⟨-, hnone | hfalse, t, b, ht, hb, hlookup, hread⟩
    · exact hI.published pem (hsame.symm.trans hpem)
    · obtain rfl : b = pem := Option.some.inj (hread.symm.trans hpem)
      have hchanged : (w.step f path e).dir.names.lookup path ≠ w.dir.names.lookup path := by
        rw [hnone, hlookup]
        exact nofun
      exact encode_of_link ht hb hchanged
    · exact hfalse.elim
  · by_cases hj' : j = e.call
    · subst hj'
      rw [hself] at hj
      rcases step_done hj with hdone | ⟨pem, hpem, hkey⟩
      · exact hkeeps _ (hI.returned _ key hdone)
      · exact hkeeps _ (hI.read hf hpem hkey)
    · rw [hother j hj'] at hj
      exact hkeeps _ (hI.returned j key hj)

/-! ### Runs -/

theorem inv_init {dir : Directory} (h : dir.names.lookup path = none) :
    Inv f path (World.init dir) where
  drafts := drafted_none
  published pem hpem := by
    obtain ⟨file, hfile, -⟩ := Directory.read_eq_some.1 hpem
    cases h.symm.trans hfile
  returned _ _ := nofun

theorem World.run_inv (hf : f.Lawful) (hpath : ∀ random, temporaryName random ≠ path)
    (hI : Inv f path w) (es : List (Event Key)) : Inv f path (w.run f path es) :=
  Transition.invariant (I := Inv f path) (fun _ e hw => (World.step_inv hf hpath hw e).1) hI es

/-- A key that is at the path stays there. -/
theorem World.run_read (hf : f.Lawful) (hpath : ∀ random, temporaryName random ≠ path)
    (hI : Inv f path w) {pem : Bytes} (h : w.dir.read path = some pem) (es : List (Event Key)) :
    (w.run f path es).dir.read path = some pem := by
  have hboth : Inv f path (w.run f path es) ∧ (w.run f path es).dir.read path = some pem := by
    refine Transition.invariant (I := fun w => Inv f path w ∧ w.dir.read path = some pem)
      (fun w e hw => ?_) ⟨hI, h⟩ es
    obtain ⟨hinv, hkeeps⟩ := World.step_inv hf hpath hw.1 e
    exact ⟨hinv, hkeeps pem hw.2⟩
  exact hboth.2

/-- **Agreement on the host key**: once the path is there it has the text of one key for ever, and
every call that succeeds returns that key. -/
theorem run_hostKey {Key : Type} (f : KeyFormat Key) (hf : f.Lawful) (path : String)
    (hpath : ∀ random, temporaryName random ≠ path) (dir : Directory)
    (habsent : dir.names.lookup path = none) (es es' : List (Event Key)) :
    let w := (World.init dir).run f path es
    (∀ pem, w.dir.read path = some pem → (∃ key, pem = f.encode key) ∧
      (w.run f path es').dir.read path = some pem) ∧
    ∀ i key, w.calls i = .done (.ok key) → w.dir.read path = some (f.encode key) := by
  intro w
  have hI : Inv f path w := World.run_inv hf hpath (inv_init habsent) es
  exact ⟨fun pem hpem => ⟨hI.published pem hpem, World.run_read hf hpath hI hpem es'⟩,
    hI.returned⟩

/-- The file of the program's own configuration. -/
def hostKeyFile : String := "ssh_host_ed25519_key"

theorem temporaryName_ne_hostKeyFile (random : UInt64) : temporaryName random ≠ hostKeyFile := by
  have htemporary : (temporaryName random).toList = '.' :: ("ssh-host-key-".toList ++ hex16 random) :=
    String.toList_ofList
  have hfile : hostKeyFile.toList = 's' :: "sh_host_ed25519_key".toList := by decide +kernel
  intro h
  have hchars := congrArg String.toList h
  rw [htemporary, hfile] at hchars
  exact absurd (List.cons.inj hchars).1 (by decide)

/-- Two processes generate keys at the same time, and the one that is slower takes the other's. -/
theorem run_hostKey_race :
    let f : KeyFormat Bytes := ⟨fun key => 45 :: key, List.tail?⟩
    let turn (call : ℕ) : Event Bytes :=
      { call, key := [UInt8.ofNat call, 7], random := UInt64.ofNat call, count := 2 }
    let w := (World.init {}).run f hostKeyFile
      ([0, 1, 0, 1, 0, 1, 0, 1, 0, 1, 0, 1, 1, 0, 1, 0, 1, 0, 1, 0].map turn)
    w.calls 0 = .done (.ok [1, 7]) ∧ w.calls 1 = .done (.ok [1, 7]) ∧
      w.dir.read hostKeyFile = some [45, 1, 7] := by
  intro f turn w
  have hfirst : w.calls 0 = .done (.ok [1, 7]) := by decide +kernel
  have hsecond : w.calls 1 = .done (.ok [1, 7]) := by decide +kernel
  exact ⟨hfirst, hsecond, (run_hostKey f (fun _ => rfl) hostKeyFile temporaryName_ne_hostKeyFile {}
    rfl _ []).2 0 _ hfirst⟩

end Tailcat.Services.HostKey
