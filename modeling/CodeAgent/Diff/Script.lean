/-! Edit scripts between two sequences of lines.
A script is found by looking for the middle of a shortest path from both ends at once; then its
insertions are moved so that neighbours merge. -/
namespace CodeAgent.Diff

inductive Tag where
  | equal | delete | insert
deriving DecidableEq, Repr, Inhabited

/-- A run of lines with one fate: where it starts in either text and how long it is. -/
structure Run where
  tag : Tag
  old : Nat
  new : Nat
  len : Nat
deriving DecidableEq, Repr, Inhabited

namespace Run

/-- Lines that the run takes up in the old text. -/
def oldLen (r : Run) : Nat := if r.tag = .insert then 0 else r.len

/-- Lines that the run takes up in the new text. -/
def newLen (r : Run) : Nat := if r.tag = .delete then 0 else r.len

def shiftLeft (r : Run) (n : Nat) : Run := { r with old := r.old - n, new := r.new - n }
def shiftRight (r : Run) (n : Nat) : Run := { r with old := r.old + n, new := r.new + n }
def growLeft (r : Run) (n : Nat) : Run := { r.shiftLeft n with len := r.len + n }
def growRight (r : Run) (n : Nat) : Run := { r with len := r.len + n }
def shrinkLeft (r : Run) (n : Nat) : Run := { r with len := r.len - n }
def shrinkRight (r : Run) (n : Nat) : Run := { r.shiftRight n with len := r.len - n }

end Run

/-- The two sequences of lines. -/
structure Pair where
  old : Array String
  new : Array String

namespace Pair

def same (p : Pair) (i j : Nat) : Bool :=
  match p.old[i]?, p.new[j]? with
  | some a, some b => a = b
  | _, _ => false

/-- How many lines agree from two places on, at most `bound`. -/
def prefixLen (p : Pair) (i j : Nat) : (bound : Nat) → Nat
  | 0 => 0
  | bound + 1 => if p.same i j then p.prefixLen (i + 1) (j + 1) bound + 1 else 0

/-- How many lines agree before two places, at most `bound`. -/
def suffixLen (p : Pair) (i j : Nat) : (bound : Nat) → Nat
  | 0 => 0
  | bound + 1 => if p.same (i - 1) (j - 1) then p.suffixLen (i - 1) (j - 1) bound + 1 else 0

end Pair

/-- A part of either sequence. -/
structure Window where
  oldStart : Nat
  oldEnd : Nat
  newStart : Nat
  newEnd : Nat

namespace Window

def oldLen (w : Window) : Nat := w.oldEnd - w.oldStart
def newLen (w : Window) : Nat := w.newEnd - w.newStart

end Window

/-- How many differences have to be tried from either end. -/
def maxDifferences (w : Window) : Nat := (w.oldLen + w.newLen + 1) / 2 + 1

/-- The furthest points reached on each diagonal; diagonals below zero are offset. -/
structure Front where
  offset : Nat
  points : Array Nat

namespace Front

def new (n : Nat) : Front := ⟨n + 1, Array.replicate (2 * n + 4) 0⟩

def get (f : Front) (k : Int) : Nat := (f.points[(k + f.offset).toNat]?).getD 0

def set (f : Front) (k : Int) (x : Nat) : Front :=
  { f with points := f.points.set! (k + f.offset).toNat x }

/-- The point on a diagonal from which a step with `d` differences starts. -/
def start (f : Front) (d k : Int) : Nat :=
  if k = -d || (k ≠ d && f.get (k - 1) < f.get (k + 1)) then f.get (k + 1) else f.get (k - 1) + 1

end Front

/-- Goes on along each diagonal from the front; a meeting with the other front is a point on a
shortest path. `steps` diagonals are left. -/
def forward (p : Pair) (w : Window) (d : Int) (vb : Front) :
    (steps : Nat) → Int → Front → Except (Nat × Nat) Front
  | 0, _, vf => .ok vf
  | steps + 1, k, vf =>
    let n := w.oldLen
    let m := w.newLen
    let delta : Int := n - m
    let x0 := vf.start d k
    let y0 := ((x0 : Int) - k).toNat
    let x := if x0 < n && y0 < m then
        x0 + p.prefixLen (w.oldStart + x0) (w.newStart + y0) (min (n - x0) (m - y0))
      else x0
    let vf := vf.set k x
    if delta % 2 ≠ 0 && (k - delta).natAbs ≤ d - 1 && x + vb.get (-(k - delta)) ≥ n then
      .error (w.oldStart + x0, w.newStart + y0)
    else forward p w d vb steps (k - 2) vf

/-- The same from the back. -/
def backward (p : Pair) (w : Window) (d : Int) (vf : Front) :
    (steps : Nat) → Int → Front → Except (Nat × Nat) Front
  | 0, _, vb => .ok vb
  | steps + 1, k, vb =>
    let n := w.oldLen
    let m := w.newLen
    let delta : Int := n - m
    let x0 := vb.start d k
    let y0 := ((x0 : Int) - k).toNat
    let more := if x0 < n && y0 < m then
        p.suffixLen (w.oldStart + n - x0) (w.newStart + m - y0) (min (n - x0) (m - y0))
      else 0
    let x := x0 + more
    let y := y0 + more
    let vb := vb.set k x
    if delta % 2 = 0 && (k - delta).natAbs ≤ d && x + vf.get (-(k - delta)) ≥ n then
      .error (w.oldStart + (n - x), w.newStart + (m - y))
    else backward p w d vf steps (k - 2) vb

/-- Ever more differences until the fronts meet. -/
def middle (p : Pair) (w : Window) : (rounds : Nat) → (d : Nat) → Front → Front → Option (Nat × Nat)
  | 0, _, _, _ => none
  | rounds + 1, d, vf, vb =>
    match forward p w d vb (d + 1) d vf with
    | .error point => some point
    | .ok vf =>
      match backward p w d vf (d + 1) d vb with
      | .error point => some point
      | .ok vb => middle p w rounds (d + 1) vf vb

/-- A point on a shortest path through a window. -/
def middle? (p : Pair) (w : Window) : Option (Nat × Nat) :=
  let n := maxDifferences w
  middle p w n 0 (.new n) (.new n)

def runIf (tag : Tag) (old new len : Nat) : List Run := if len = 0 then [] else [⟨tag, old, new, len⟩]

/-- The runs of a window, in order. -/
def conquer (p : Pair) : (fuel : Nat) → Window → List Run
  | 0, w =>
    runIf .delete w.oldStart w.newStart w.oldLen ++ runIf .insert w.oldStart w.newStart w.newLen
  | fuel + 1, w =>
    let head := p.prefixLen w.oldStart w.newStart (min w.oldLen w.newLen)
    let w' : Window := { w with oldStart := w.oldStart + head, newStart := w.newStart + head }
    let tail := p.suffixLen w'.oldEnd w'.newEnd (min w'.oldLen w'.newLen)
    let inner : Window := { w' with oldEnd := w'.oldEnd - tail, newEnd := w'.newEnd - tail }
    let between :=
      if inner.oldLen = 0 && inner.newLen = 0 then []
      else if inner.newLen = 0 then [⟨.delete, inner.oldStart, inner.newStart, inner.oldLen⟩]
      else if inner.oldLen = 0 then [⟨.insert, inner.oldStart, inner.newStart, inner.newLen⟩]
      else
        match middle? p inner with
        | some (x, y) =>
          conquer p fuel { inner with oldEnd := x, newEnd := y }
            ++ conquer p fuel { inner with oldStart := x, newStart := y }
        | none =>
          [⟨.delete, inner.oldStart, inner.newStart, inner.oldLen⟩,
            ⟨.insert, inner.oldStart, inner.newStart, inner.newLen⟩]
    runIf .equal w.oldStart w.newStart head ++ between
      ++ runIf .equal inner.oldEnd inner.newEnd tail

/-- A run with what precedes it, nearest first, and what follows it. -/
structure Focus where
  before : List Run
  here : Run
  after : List Run

/-- Moves a run up past equal lines that it could as well end with, and merges it with its like. -/
def shiftUp (p : Pair) : (fuel : Nat) → Focus → Focus
  | 0, f => f
  | fuel + 1, f =>
    match f.before with
    | [] => f
    | prev :: before =>
      match f.here.tag, prev.tag with
      | .equal, _ => f
      | _, .equal =>
        let same := p.suffixLen (prev.old + prev.oldLen) (f.here.new + f.here.newLen)
          (min prev.oldLen f.here.newLen)
        if same > 0 then
          let after := match f.after with
            | next :: rest =>
              if next.tag = .equal then next.growLeft same :: rest
              else ⟨.equal, prev.old + prev.oldLen - same, f.here.new + f.here.newLen - same, same⟩
                :: f.after
            | [] =>
              [⟨.equal, prev.old + prev.oldLen - same, f.here.new + f.here.newLen - same, same⟩]
          let prev := prev.shrinkLeft same
          shiftUp p fuel
            ⟨if prev.len = 0 then before else prev :: before, f.here.shiftLeft same, after⟩
        else if prev.len = 0 then shiftUp p fuel { f with before := before }
        else f
      | a, b =>
        if a = b then shiftUp p fuel ⟨before, prev.growRight f.here.len, f.after⟩
        else shiftUp p fuel ⟨before, f.here, prev :: f.after⟩

/-- Moves a run down past equal lines that it could as well begin with, and merges it with its
like. -/
def shiftDown (p : Pair) : (fuel : Nat) → Focus → Focus
  | 0, f => f
  | fuel + 1, f =>
    match f.after with
    | [] => f
    | next :: after =>
      match f.here.tag, next.tag with
      | .equal, _ => f
      | _, .equal =>
        let same := p.prefixLen next.old f.here.new (min next.oldLen f.here.newLen)
        if same > 0 then
          let before := match f.before with
            | prev :: rest =>
              if prev.tag = .equal then prev.growRight same :: rest
              else ⟨.equal, next.old, f.here.new, same⟩ :: f.before
            | [] => [⟨.equal, next.old, f.here.new, same⟩]
          let next := next.shrinkRight same
          shiftDown p fuel
            ⟨before, f.here.shiftRight same, if next.len = 0 then after else next :: after⟩
        else if next.len = 0 then shiftDown p fuel { f with after := after }
        else f
      | a, b =>
        if a = b then shiftDown p fuel ⟨f.before, f.here.growRight next.len, after⟩
        else shiftDown p fuel ⟨next :: f.before, f.here, after⟩

/-- Moves the runs with one tag, from the first to the last. -/
def compactTag (p : Pair) (tag : Tag) (bound : Nat) :
    (fuel : Nat) → (before after : List Run) → List Run
  | 0, before, after => before.reverse ++ after
  | _ + 1, before, [] => before.reverse
  | fuel + 1, before, run :: after =>
    if run.tag = tag then
      let f := shiftDown p bound (shiftUp p bound ⟨before, run, after⟩)
      compactTag p tag bound fuel (f.here :: f.before) f.after
    else compactTag p tag bound fuel (run :: before) after

def compact (p : Pair) (runs : List Run) : List Run :=
  let bound := p.old.size + p.new.size + 2 * runs.length + 8
  let runs := compactTag p .delete bound bound [] runs
  compactTag p .insert bound bound [] runs

/-- Where two texts differ: lines removed and lines put in their place. -/
structure Region where
  changed : Bool
  old : Nat
  oldLen : Nat
  new : Nat
  newLen : Nat
deriving DecidableEq, Repr, Inhabited

/-- Deletions and insertions gathered until equal lines come. -/
structure Gathered where
  deleted : Option (Nat × Nat × Nat)
  inserted : Option (Nat × Nat × Nat)

def Gathered.flush (g : Gathered) : List Region :=
  match g.deleted, g.inserted with
  | some (old, len, _), some (_, new, newLen) => [⟨true, old, len, new, newLen⟩]
  | some (old, len, new), none => [⟨true, old, len, new, 0⟩]
  | none, some (old, new, newLen) => [⟨true, old, 0, new, newLen⟩]
  | none, none => []

/-- Equal runs that meet become one region, and so do the changes between them. -/
def regions (equal : Option (Nat × Nat × Nat)) (g : Gathered) : List Run → List Region
  | [] =>
    (match equal with
      | some (old, new, len) => [⟨false, old, len, new, len⟩]
      | none => []) ++ g.flush
  | r :: rest =>
    match r.tag with
    | .equal =>
      let equal' := match equal with
        | some (old, new, len) => some (old, new, len + r.len)
        | none => some (r.old, r.new, r.len)
      g.flush ++ regions equal' ⟨none, none⟩ rest
    | .delete =>
      let deleted := match g.deleted with
        | some (old, len, new) => some (old, len + r.len, new)
        | none => some (r.old, r.len, r.new)
      (match equal with
        | some (old, new, len) => [⟨false, old, len, new, len⟩]
        | none => []) ++ regions none { g with deleted := deleted } rest
    | .insert =>
      let inserted := match g.inserted with
        | some (old, new, len) => some (old, new, len + r.len)
        | none => some (r.old, r.new, r.len)
      (match equal with
        | some (old, new, len) => [⟨false, old, len, new, len⟩]
        | none => []) ++ regions none { g with inserted := inserted } rest

/-- The regions of two sequences of lines, in order. -/
def script (p : Pair) : List Region :=
  let w : Window := ⟨0, p.old.size, 0, p.new.size⟩
  regions none ⟨none, none⟩ (compact p (conquer p (p.old.size + p.new.size + 1) w))

end CodeAgent.Diff
