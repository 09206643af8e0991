import FlintZilla.Lib.Crash

/-!
# Files and what a crash leaves of them

A file has a durable content, and since it was last opened for writing also one that is not yet
synced. Reading sees the latter. A crash keeps the durable content, or any initial part of the
other; creating, removing and renaming take effect at once. `fsync` makes the content durable.

A fault makes an operation fail. A write that fails may have written part of its data; any other
operation that fails has done nothing. `fsync` only reports the failure.

Main results:

* `File.crash_synced`, `File.crash_cases`: what a crash leaves of a file.
* `Safe.write`, `Safe.fsync`, `Safe.rename` and the other rules: what each operation needs.
-/

namespace Lib.Files

open Lib.Crash

structure File where
  durable : Option (List UInt8) := none
  unsynced : Option (List UInt8) := none
deriving DecidableEq

/-- What readers see; `none` if there is no file. -/
def File.content (f : File) : Option (List UInt8) := f.unsynced.or f.durable

/-- A loss is the length that is kept of the content not synced, if it is not lost altogether. -/
def File.crash (loss : Option Nat) (f : File) : File :=
  match loss, f.unsynced with
  | some n, some data => { durable := some (data.take n) }
  | _, _ => { durable := f.durable }

abbrev Disk (N : Type) := N → File

variable {N : Type} [DecidableEq N]

def Disk.set (d : Disk N) (n : N) (f : File) : Disk N := Function.update d n f

/-- The file opened for writing, with these data written to it. -/
def Disk.writing (d : Disk N) (n : N) (data : List UInt8) : Disk N :=
  d.set n { d n with unsynced := some data }

inductive FileOp (N : Type) where
  | isFile (n : N)
  | getSize (n : N)
  | openRead (n : N)
  /-- The next bytes of an open file, from those it has left. -/
  | read (rest : List UInt8) (count : Nat)
  | openEmpty (n : N)
  | write (n : N) (data : List UInt8)
  | fsync (n : N)
  | remove (n : N)
  | rename (source dest : N)

/-- `getSize` is -1 without a file, and `openRead` returns what there is to read. -/
@[reducible] def FileOp.Res : FileOp N → Type
  | .isFile _ => Bool
  | .getSize _ => Int
  | .openRead _ => Option (List UInt8)
  | .read _ _ => Option (List UInt8)
  | .openEmpty _ => Bool
  | .write _ _ => Bool
  | .fsync _ => Bool
  | .remove _ => Bool
  | .rename _ _ => Bool

structure Fault where
  fails : Bool := false
  /-- What a failing write has written. -/
  written : Nat := 0
deriving DecidableEq

def performOp : (o : FileOp N) → Fault → Disk N → o.Res × Disk N
  | .isFile n, _, d => ((d n).content.isSome, d)
  | .getSize n, _, d => ((d n).content.elim (-1) fun data => (data.length : Int), d)
  | .openRead n, f, d => (if f.fails then none else (d n).content, d)
  | .read rest count, f, d => (if f.fails then none else some (rest.take count), d)
  | .openEmpty n, f, d => if f.fails then (false, d) else (true, d.writing n [])
  | .write n data, f, d =>
    let before := (d n).unsynced.getD []
    (!f.fails, d.writing n (before ++ if f.fails then data.take f.written else data))
  | .fsync n, f, d => (!f.fails, d.set n { durable := (d n).content })
  | .remove n, f, d => if f.fails then (false, d) else (true, d.set n {})
  | .rename source dest, f, d =>
    if f.fails || (d source).content.isNone then (false, d)
    else (true, (d.set dest (d source)).set source {})

def device (N : Type) [DecidableEq N] :
    Device (FileOp.Res (N := N)) (Disk N) Fault (N → Option Nat) where
  perform := performOp
  crash := fun loss d n => (d n).crash (loss n)

/-- Programs on files. -/
abbrev FileM (N : Type) := Prog (FileOp.Res (N := N))

def isFile (n : N) : FileM N Bool := Prog.perform (FileOp.isFile n)

def getSize (n : N) : FileM N Int := Prog.perform (FileOp.getSize n)

def openRead (n : N) : FileM N (Option (List UInt8)) := Prog.perform (FileOp.openRead n)

def read (rest : List UInt8) (count : Nat) : FileM N (Option (List UInt8)) :=
  Prog.perform (FileOp.read rest count)

def openEmpty (n : N) : FileM N Bool := Prog.perform (FileOp.openEmpty n)

def write (n : N) (data : List UInt8) : FileM N Bool := Prog.perform (FileOp.write n data)

def fsync (n : N) : FileM N Bool := Prog.perform (FileOp.fsync n)

def remove (n : N) : FileM N Bool := Prog.perform (FileOp.remove n)

def rename (source dest : N) : FileM N Bool := Prog.perform (FileOp.rename source dest)

section Lemmas

variable {d : Disk N} {n m : N}

@[simp] theorem Disk.set_same (f : File) : d.set n f n = f := by simp [Disk.set]

theorem Disk.set_other (f : File) (h : m ≠ n) : d.set n f m = d m := by simp [Disk.set, h]

@[simp] theorem Disk.writing_same (data : List UInt8) :
    d.writing n data n = { d n with unsynced := some data } := Disk.set_same _

theorem Disk.writing_other (data : List UInt8) (h : m ≠ n) : d.writing n data m = d m :=
  Disk.set_other _ h

/-- Only what was written last is seen. -/
@[simp] theorem Disk.writing_writing (data data' : List UInt8) :
    (d.writing n data).writing n data' = d.writing n data' := by
  unfold Disk.writing Disk.set
  rw [Function.update_self, Function.update_idem]

/-- A file that is synced survives. -/
theorem File.crash_synced (loss : Option Nat) (data : Option (List UInt8)) :
    File.crash loss { durable := data } = { durable := data } := by
  cases loss <;> rfl

/-- Of a file that is being written, a crash leaves the old content or a beginning of the new. -/
theorem File.crash_cases (loss : Option Nat) (f : File) :
    f.crash loss = { durable := f.durable } ∨
      ∃ data kept, f.unsynced = some data ∧ kept <+: data ∧
        f.crash loss = { durable := some kept } := by
  cases loss with
  | none => exact .inl rfl
  | some k =>
    cases hdata : f.unsynced with
    | none =>
      left
      unfold File.crash
      rw [hdata]
    | some data =>
      right
      refine ⟨data, data.take k, rfl, List.take_prefix k data, ?_⟩
      unfold File.crash
      rw [hdata]

end Lemmas

/-! ## Rules

One for each operation, in front of the program `g` that takes its result. -/

/-- Some fault that may occur makes an operation fail. -/
def Fails (ok : Fault → Prop) : Prop := ∃ f, ok f ∧ f.fails = true

section Rules

variable {α : Type} {ok : Fault → Prop} {Q : α → Disk N → Prop} {C : Disk N → Prop} {d : Disk N}
  {n : N} {g : Bool → FileM N α}

theorem Safe.isFile (h : Safe (device N) ok Q C (g (d n).content.isSome) d) :
    Safe (device N) ok Q C (isFile n >>= g) d :=
  Safe.perform (D := device N) (o := FileOp.isFile n) (g := g) h.stopped fun _ _ => h

theorem Safe.getSize {g : Int → FileM N α}
    (h : Safe (device N) ok Q C (g ((d n).content.elim (-1) fun data => (data.length : Int))) d) :
    Safe (device N) ok Q C (getSize n >>= g) d :=
  Safe.perform (D := device N) (o := FileOp.getSize n) (g := g) h.stopped fun _ _ => h

/-- An operation that fails in one way and succeeds in one. -/
theorem Safe.performOr {o : FileOp N} {g : o.Res → FileM N α} {good bad : o.Res} {d' : Disk N}
    (ho : ∀ f, performOp o f d = if f.fails then (bad, d) else (good, d')) (hC : C d)
    (h : Safe (device N) ok Q C (g good) d')
    (hfail : Fails ok → Safe (device N) ok Q C (g bad) d) :
    Safe (device N) ok Q C (Prog.perform o >>= g) d := by
  refine Safe.perform hC ?_
  intro f hf
  change Safe (device N) ok Q C (g (performOp o f d).1) (performOp o f d).2
  rw [ho f]
  split
  · next hfails => exact hfail ⟨f, hf, hfails⟩
  · exact h

/-- Opening for reading gives the content, or nothing if it fails. -/
theorem Safe.openRead {g : Option (List UInt8) → FileM N α}
    (h : Safe (device N) ok Q C (g (d n).content) d)
    (hfail : Fails ok → Safe (device N) ok Q C (g none) d) :
    Safe (device N) ok Q C (openRead n >>= g) d :=
  Safe.performOr (o := .openRead n) (fun f => by cases h : f.fails <;> simp [performOp, h])
    h.stopped h hfail

theorem Safe.read {g : Option (List UInt8) → FileM N α} {rest : List UInt8} {count : Nat}
    (h : Safe (device N) ok Q C (g (some (rest.take count))) d)
    (hfail : Fails ok → Safe (device N) ok Q C (g none) d) :
    Safe (device N) ok Q C (read rest count >>= g) d :=
  Safe.performOr (o := .read rest count) (fun f => by cases h : f.fails <;> simp [performOp, h])
    h.stopped h hfail

theorem Safe.openEmpty (hC : C d) (h : Safe (device N) ok Q C (g true) (d.writing n []))
    (hfail : Fails ok → Safe (device N) ok Q C (g false) d) :
    Safe (device N) ok Q C (openEmpty n >>= g) d :=
  Safe.performOr (o := .openEmpty n) (fun _ => rfl) hC h hfail

/-- A write that fails may have written a part. -/
theorem Safe.write {before data : List UInt8} (hC : C (d.writing n before))
    (h : Safe (device N) ok Q C (g true) (d.writing n (before ++ data)))
    (hfail : ∀ kept, kept <+: data → Fails ok →
      Safe (device N) ok Q C (g false) (d.writing n (before ++ kept))) :
    Safe (device N) ok Q C (write n data >>= g) (d.writing n before) := by
  refine Safe.perform (D := device N) (o := FileOp.write n data) (g := g) hC ?_
  intro f hf
  change Safe (device N) ok Q C (g !f.fails) ((d.writing n before).writing n
    (((d.writing n before) n).unsynced.getD [] ++ if f.fails then data.take f.written else data))
  rw [Disk.writing_writing, Disk.writing_same]
  cases hfails : f.fails with
  | true => exact hfail _ (List.take_prefix f.written data) ⟨f, hf, hfails⟩
  | false => exact h

/-- After `fsync` the content is durable; a failure is only reported. -/
theorem Safe.fsync {data : List UInt8} (hC : C (d.writing n data))
    (h : Safe (device N) ok Q C (g true) (d.set n { durable := some data }))
    (hfail : Fails ok → Safe (device N) ok Q C (g false) (d.set n { durable := some data })) :
    Safe (device N) ok Q C (fsync n >>= g) (d.writing n data) := by
  refine Safe.perform (D := device N) (o := FileOp.fsync n) (g := g) hC ?_
  intro f hf
  have hset : (d.writing n data).set n { durable := ((d.writing n data) n).content } =
      d.set n { durable := some data } := by
    rw [Disk.writing_same]
    exact Function.update_idem _ _ _
  change Safe (device N) ok Q C (g !f.fails)
    ((d.writing n data).set n { durable := ((d.writing n data) n).content })
  rw [hset]
  cases hfails : f.fails with
  | true => exact hfail ⟨f, hf, hfails⟩
  | false => exact h

/-- Removing takes effect at once. -/
theorem Safe.remove (hC : C d) (h : Safe (device N) ok Q C (g true) (d.set n {}))
    (hfail : Fails ok → Safe (device N) ok Q C (g false) d) :
    Safe (device N) ok Q C (remove n >>= g) d :=
  Safe.performOr (o := .remove n) (fun _ => rfl) hC h hfail

/-- Renaming replaces the file at the new name at once. -/
theorem Safe.rename {source dest : N} (hC : C d)
    (h : Safe (device N) ok Q C (g true) ((d.set dest (d source)).set source {}))
    (hfail : Safe (device N) ok Q C (g false) d) :
    Safe (device N) ok Q C (rename source dest >>= g) d := by
  refine Safe.perform (D := device N) (o := FileOp.rename source dest) (g := g) hC ?_
  intro f _
  have hperform : (device N).perform (.rename source dest) f d =
      if f.fails || (d source).content.isNone then (false, d)
      else (true, (d.set dest (d source)).set source {}) := rfl
  rw [hperform]
  split
  · exact hfail
  · exact h

end Rules

end Lib.Files
