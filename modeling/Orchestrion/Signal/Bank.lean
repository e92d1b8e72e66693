import Orchestrion.Signal.Cache
import Orchestrion.Signal.Resample
import Orchestrion.Pitch
import Orchestrion.Context
import Orchestrion.Document.Value
import Orchestrion.Decimal.Numeral

set_option autoImplicit false

/-!
# Clip banks

A bank has recorded clips of some pitches.  Before a note is played, `prime`
puts the clip of its pitch into the bank's cache; a pitch without a clip gets the
nearest clip, resampled.  While the note is played the clip is read from the
cache; after its end there is silence.

Clips are decoded by a function that is handed in.
-/

namespace Orchestrion

/-- Decodes the clip at a path, if there is one. -/
abbrev ClipLoader (α : Type) := String → Option (Clip α)

/-- A bank of clips. -/
structure Bank (α : Type) where
  name : Document.Atom
  /-- the path of the clip of each pitch -/
  files : List (Int × String)
  cache : PitchCache (Clip α)

/-! ## Pitches of clips -/

/-- Why a key of a bank's files is no pitch. -/
inductive PitchKeyFault where
  /-- a key that stands for no number -/
  | noNumber
  /-- a text that is no numeral -/
  | malformed (s : String)
  /-- an integer beyond the range of numbers -/
  | tooLarge
  /-- a number that is no integer -/
  | broken (key : Document.Atom)

/-- What is said about a text that is no numeral. -/
def notRealMessage (s : String) : String :=
  "could not convert string to float: " ++ Text.quoted s

/-- What is said about a number that is no integer. -/
def PitchKeyFault.brokenMessage (key : Document.Atom) : String :=
  "Sample bank pitch must be an integer, got " ++ key.quoted

/-- The pitch that a key stands for. -/
def pitchOfKey (key : Document.Atom) : Except PitchKeyFault Int :=
  let whole (x : Float) : Except PitchKeyFault Int :=
    match Document.Key.ofReal x with
    | .whole n => .ok n
    | _ => .error (.broken key)
  match key with
  | .null => .error .noNumber
  | .bool b => .ok (if b then 1 else 0)
  | .int n =>
    match Scalar.ofInt (α := Float) n with
    | .ok x => whole x
    | .error _ => .error .tooLarge
  | .real x => whole x
  | .text s =>
    match Decimal.readReal s with
    | some x => whole x
    | none => .error (.malformed s)

namespace Bank

variable {α : Type}

/-- Sets the path of a pitch. -/
def setFile (files : List (Int × String)) (pitch : Int) (path : String) : List (Int × String) :=
  match files with
  | [] => [(pitch, path)]
  | (p, old) :: rest =>
    if p = pitch then (p, path) :: rest else (p, old) :: setFile rest pitch path

/-- The files of a mapping from keys to paths; a later key of the same pitch
replaces the path of an earlier one. -/
def filesOf (files : List (Int × String)) :
    List (Document.Atom × String) → Except PitchKeyFault (List (Int × String))
  | [] => .ok files
  | (key, path) :: rest =>
    match pitchOfKey key with
    | .ok pitch => filesOf (setFile files pitch path) rest
    | .error fault => .error fault

/-- A bank of a mapping from keys to paths, with an empty cache. -/
def ofFiles (name : Document.Atom) (limit : Option Int) (files : List (Document.Atom × String)) :
    Except PitchKeyFault (Bank α) :=
  match filesOf [] files with
  | .ok files => .ok ⟨name, files, .empty limit⟩
  | .error fault => .error fault

/-- The path of the clip of a pitch. -/
def file? (b : Bank α) (pitch : Int) : Option String := List.lookup pitch b.files

/-- The files in the order of their pitches. -/
def sortedFiles (b : Bank α) : List (Int × String) :=
  b.files.mergeSort fun x y => x.1 ≤ y.1

/-- The pitches in the cache, in increasing order. -/
def cachedPitches (b : Bank α) : List Int := b.cache.keys.mergeSort

/-! ## Substitutes -/

/-- The first of some pitches that has a clip. -/
def firstWithFile (b : Bank α) : List Int → Option (Int × String)
  | [] => none
  | pitch :: rest =>
    match b.file? pitch with
    | some path => some (pitch, path)
    | none => b.firstWithFile rest

/-- The pitch nearest to a pitch, other than itself, that has a clip, and the
path of that clip. -/
def nearestFile (b : Bank α) (pitch : Int) : Option (Int × String) :=
  b.firstWithFile (Pitch.around pitch Pitch.maxDistance)

/-- The pitch nearest to a pitch, other than itself, that has a clip. -/
def nearest (b : Bank α) (pitch : Int) : Option Int := (b.nearestFile pitch).map Prod.fst

/-! ## Preparing a note -/

variable [Scalar α]

/-- Holds a clip; a cache that has no room for it is left empty. -/
def store (b : Bank α) (pitch : Int) (clip : Clip α) (trace : List Event) :
    Except Fault Unit × Bank α × List Event :=
  let result := if b.cache.limitHolds then .ok () else .error .noRoom
  (result, { b with cache := b.cache.put pitch clip }, trace)

/-- Prepares a pitch: a pitch that is cached needs nothing. -/
def prime (load : ClipLoader α) (b : Bank α) (pitch : Int) :
    Except Fault Unit × Bank α × List Event :=
  if b.cache.contains pitch then (.ok (), b, [])
  else
    match b.file? pitch with
    | some path =>
      match load path with
      | none => (.error (.unreadableClip path), b, [.decoding path])
      | some clip => b.store pitch clip [.decoding path]
    | none =>
      let told : List Event := [.warning (.noClip b.name.shown pitch)]
      match b.nearestFile pitch with
      | none => (.ok (), b, told ++ [.warning (.noSubstitute b.name.shown pitch)])
      | some (source, path) =>
        match computed (Pitch.ratio pitch source) with
        | .error fault => (.error fault, b, told)
        | .ok ratio =>
          match load path with
          | none => (.error (.unreadableClip path), b, told ++ [.decoding path])
          | some clip =>
            match clip.resample ratio with
            | .error fault => (.error fault, b, told ++ [.decoding path])
            | .ok clip => b.store pitch clip (told ++ [.decoding path])

/-- An integer value of a context. -/
def intValue (ctx : Context α) (name : String) : Except Fault Int :=
  match ctx.get? name with
  | none => .error (.missingValue name)
  | some x => computed (Scalar.truncate x)

/-- Prepares the pitch of a context. -/
def primeIn (load : ClipLoader α) (b : Bank α) (ctx : Context α) :
    Except Fault Unit × Bank α × List Event :=
  match intValue ctx Context.pitchName with
  | .error fault => (.error fault, b, [])
  | .ok pitch => b.prime load pitch

/-! ## Playing -/

/-- The buffer of a pitch, which thereby becomes the most recently used. -/
def buffer (b : Bank α) (pitch : Int) : Option (Clip α) × Bank α :=
  (b.cache.find? pitch, { b with cache := b.cache.touch pitch })

/-- The sample of a buffer; after its end there is silence. -/
def sampleOf (clip : Clip α) (index : Int) : Except Fault α :=
  if index < clip.size then
    match clip.at? index with
    | some x => .ok x
    | none => .error .beforeClip
  else .ok 0.0

/-- The value as a carrier. -/
def carrier (b : Bank α) (ctx : Context α) : Except Fault (Option α) × Bank α :=
  match intValue ctx Context.pitchName with
  | .error fault => (.error fault, b)
  | .ok pitch =>
    match b.buffer pitch with
    | (none, b) => (.ok none, b)
    | (some clip, b) =>
      match intValue ctx Context.sampleName with
      | .error fault => (.error fault, b)
      | .ok index =>
        match sampleOf clip index with
        | .ok x => (.ok (some x), b)
        | .error fault => (.error fault, b)

end Bank

end Orchestrion
