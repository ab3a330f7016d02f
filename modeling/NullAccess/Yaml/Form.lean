import NullAccess.Yaml.Scalar

/-!
# Written YAML values

A form is a value as it is written: every part has a kind, and what the parts denote is not settled
yet.  Settling it may fail, and of several failures the one counts that lies least deep, the first
of those: a collection is settled before what stands inside its parts.  The pairs of mappings under
the merge key are pairs of the mapping around it; its own pairs win over them.
-/

namespace NullAccess.Yaml

/-- A value as it is written. -/
inductive Form where
  /-- A scalar; `sound` says that its text is whole. -/
  | scalar (kind : Kind) (text : List Char) (sound : Bool)
  | seq (kind : Kind) (items : List Form)
  | map (kind : Kind) (pairs : List (Form × Form))
  deriving Inhabited

/-- A value, or a failure with the depth that it lies at. -/
abbrev Settled (α : Type) := Except (Nat × Failure) α

namespace Settled

variable {α : Type}

/-- Values one after another.  Of several failures the least deep one counts, the first of those. -/
def all : List (Settled α) → Settled (List α)
  | [] => .ok []
  | x :: rest =>
    match x, all rest with
    | .ok a, .ok as => .ok (a :: as)
    | .ok _, .error e => .error e
    | .error e, .ok _ => .error e
    | .error e, .error f => .error (if f.1 < e.1 then f else e)

end Settled

namespace Form

def kind : Form → Kind
  | scalar k _ _ => k
  | seq k _ => k
  | map k _ => k

/-- A key and its value.  A collection cannot be a key. -/
def pairAt (depth : Nat) (k v : Settled Node) : Settled (Node × Node) :=
  match k with
  | .error e => .error (if e.1 = depth then e else (depth, .malformed))
  | .ok key => if key.isScalar then v.map fun value => (key, value) else .error (depth, .malformed)

/-- Pairs as a mapping: a later value replaces an earlier one under its key. -/
def collect (pairs : List (Node × Node)) : List (Node × Node) :=
  pairs.foldl (fun held (k, v) => Node.setPair k v held) []

mutual

/-- The text of a scalar, or of the default value of a mapping. -/
def text? : Form → Option (List Char × Bool)
  | scalar _ t sound => some (t, sound)
  | seq _ _ => none
  | map _ pairs => defaultText? pairs

/-- The text under the first key of a default value. -/
def defaultText? : List (Form × Form) → Option (List Char × Bool)
  | [] => none
  | (k, v) :: rest => if k.kind = .default then v.text? else defaultText? rest

end

mutual

def settle (depth : Nat) : Form → Settled Node
  | scalar kind t sound =>
    if kind = .seq ∨ kind = .map ∨ kind = .set ∨ kind = .pairs then .error (depth + 1, .malformed)
    else (scalarValue kind t sound).mapError (depth, ·)
  | seq kind items =>
    match kind with
    | .seq => (Settled.all (settleItems (depth + 1) items)).map .seq
    | .pairs => (Settled.all (settleEntries (depth + 1) items)).map .seq
    | .map | .set => .error (depth + 1, .malformed)
    | _ => .error (depth, .malformed)
  | map kind pairs =>
    match kind with
    | .map => (settlePairs (depth + 1) pairs).map .map
    | .set => (settlePairs (depth + 1) pairs).map fun ps => .seq (ps.map (·.1))
    | .seq | .pairs => .error (depth + 1, .malformed)
    | kind =>
      match defaultText? pairs with
      | some (t, sound) => (scalarValue kind t sound).mapError (depth, ·)
      | none => .error (depth, .malformed)

def settleItems (depth : Nat) : List Form → List (Settled Node)
  | [] => []
  | f :: rest => f.settle depth :: settleItems depth rest

/-- The pairs of mappings with one pair each, every one as a sequence of two. -/
def settleEntries (depth : Nat) : List Form → List (Settled Node)
  | [] => []
  | map _ [(k, v)] :: rest =>
    (Settled.all [k.settle depth, v.settle depth]).map .seq :: settleEntries depth rest
  | _ :: rest => .error (depth, .malformed) :: settleEntries depth rest

def settlePairs (depth : Nat) (pairs : List (Form × Form)) : Settled (List (Node × Node)) :=
  match ownAndMerged depth pairs with
  | none => .error (depth, .malformed)
  | some (own, merged) => (Settled.all (merged ++ own)).map collect

/-- The pairs of a mapping itself, and those that are merged into it.  Only a mapping or a sequence
of mappings can be merged. -/
def ownAndMerged (depth : Nat) : List (Form × Form) →
    Option (List (Settled (Node × Node)) × List (Settled (Node × Node)))
  | [] => some ([], [])
  | (k, v) :: rest =>
    if k.kind = .merge then
      match mergedPairs depth v, ownAndMerged depth rest with
      | some here, some (own, merged) => some (own, here ++ merged)
      | _, _ => none
    else
      let key := match k with
        | scalar .default t sound => scalarValue .text t sound |>.mapError (depth, ·)
        | k => k.settle depth
      (ownAndMerged depth rest).map fun (own, merged) =>
        (pairAt depth key (v.settle depth) :: own, merged)

/-- The pairs that the value of a merge key gives.  Of several mappings the first wins. -/
def mergedPairs (depth : Nat) : Form → Option (List (Settled (Node × Node)))
  | scalar _ _ _ => none
  | seq _ items => mergedItems depth items
  | map _ pairs => (ownAndMerged depth pairs).map fun (own, merged) => merged ++ own

def mergedItems (depth : Nat) : List Form → Option (List (Settled (Node × Node)))
  | [] => some []
  | map _ pairs :: rest =>
    match ownAndMerged depth pairs, mergedItems depth rest with
    | some (own, merged), some later => some (later ++ merged ++ own)
    | _, _ => none
  | _ :: _ => none

end

def node (f : Form) : Except Failure Node := (f.settle 0).mapError (·.2)

end Form

end NullAccess.Yaml
