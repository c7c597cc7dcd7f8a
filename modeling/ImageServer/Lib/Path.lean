import Mathlib.Tactic.Common

/-!
# Lexical resolution of paths

A path is the list of its steps from a directory: a name goes down, `..` goes up, and `.` or an empty component
stays.  A directory is the list of the names from the root of the file system to it, and going up from the root
stays there (`resolve`).

From a directory that is not known yet, a path amounts to a number of steps up followed by names (`relative`), and
`resolve_eq` says that following a path is following this normal form.  So whether a path leads out of the
directory it starts from is a question about its normal form and the end of the directory (`prefix_resolve_iff`).
-/

namespace Path

variable {ν : Type*}

/-- A component of a path. -/
inductive Step (ν : Type*)
  | stay
  | up
  | down (name : ν)
deriving DecidableEq

/-- The directory one step away. -/
def follow (dir : List ν) : Step ν → List ν
  | .stay => dir
  | .up => dir.dropLast
  | .down name => dir ++ [name]

/-- The directory or file that the path leads to from `dir`. -/
def resolve (dir : List ν) (path : List (Step ν)) : List ν := path.foldl follow dir

theorem resolve_append (dir : List ν) (path path' : List (Step ν)) :
    resolve dir (path ++ path') = resolve (resolve dir path) path' := List.foldl_append

/-- A path in normal form: `ups` steps up, and then the names. -/
structure Relative (ν : Type*) where
  ups : Nat
  names : List ν
deriving DecidableEq

/-- The normal form of a path that goes one step further. -/
def Relative.follow (r : Relative ν) : Step ν → Relative ν
  | .stay => r
  | .up =>
    match r.names with
    | [] => { r with ups := r.ups + 1 }
    | name :: names => { r with names := (name :: names).dropLast }
  | .down name => { r with names := r.names ++ [name] }

/-- The normal form of a path. -/
def relative (path : List (Step ν)) : Relative ν := path.foldl Relative.follow { ups := 0, names := [] }

/-- What of `dir` is left after the steps up. -/
def Relative.base (r : Relative ν) (dir : List ν) : List ν := dir.take (dir.length - r.ups)

/-- What of `dir` the steps up take away. -/
def Relative.left (r : Relative ν) (dir : List ν) : List ν := dir.drop (dir.length - r.ups)

/-- Where a normal form leads to from `dir`. -/
def Relative.apply (r : Relative ν) (dir : List ν) : List ν := r.base dir ++ r.names

theorem follow_apply (dir : List ν) (r : Relative ν) (s : Step ν) :
    follow (r.apply dir) s = (r.follow s).apply dir := by
  cases s with
  | stay => rfl
  | down name =>
    show (r.base dir ++ r.names) ++ [name] = r.base dir ++ (r.names ++ [name])
    exact List.append_assoc ..
  | up =>
    obtain ⟨ups, names⟩ := r
    cases names with
    | nil =>
      have hup : (dir.take (dir.length - ups)).dropLast = dir.take (dir.length - (ups + 1)) := by
        rw [List.dropLast_eq_take, List.take_take, List.length_take]
        congr 1
        omega
      show (dir.take (dir.length - ups) ++ []).dropLast = dir.take (dir.length - (ups + 1)) ++ []
      rw [List.append_nil, List.append_nil]
      exact hup
    | cons name names =>
      show (dir.take (dir.length - ups) ++ name :: names).dropLast = _
      rw [List.dropLast_append_of_ne_nil (List.cons_ne_nil name names)]
      rfl

/-- Following a path is following its normal form. -/
theorem resolve_eq (dir : List ν) (path : List (Step ν)) : resolve dir path = (relative path).apply dir := by
  have key : ∀ (p : List (Step ν)) (r : Relative ν),
      p.foldl follow (r.apply dir) = (p.foldl Relative.follow r).apply dir := by
    intro p
    induction p with
    | nil => intro r; rfl
    | cons s p ih =>
      intro r
      rw [List.foldl_cons, List.foldl_cons, follow_apply]
      exact ih _
  have hstart : (⟨0, []⟩ : Relative ν).apply dir = dir := by
    show dir.take (dir.length - 0) ++ [] = dir
    rw [Nat.sub_zero, List.take_length, List.append_nil]
  have h := key path ⟨0, []⟩
  rw [hstart] at h
  exact h

theorem base_append_left (r : Relative ν) (dir : List ν) : r.base dir ++ r.left dir = dir := List.take_append_drop ..

/-- A path stays below the directory it starts from when the names it goes down again are those it went up. -/
theorem prefix_resolve_iff (dir : List ν) (path : List (Step ν)) :
    dir <+: resolve dir path ↔ (relative path).left dir <+: (relative path).names := by
  have h : dir <+: resolve dir path ↔
      (relative path).base dir ++ (relative path).left dir <+: (relative path).base dir ++ (relative path).names := by
    rw [base_append_left, resolve_eq]
    rfl
  rw [h]
  exact List.prefix_append_right_inj _

/-- A path that never goes up further than it has come down. -/
theorem left_of_ups {r : Relative ν} (h : r.ups = 0) (dir : List ν) : r.left dir = [] := by
  rw [Relative.left, h, Nat.sub_zero, List.drop_length]

end Path
