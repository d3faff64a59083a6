/-
  Which modules run (`celerp/modules/loader.py`): admission (`admit_modules`), the modules a
  failed migration takes out (`Admission.without`), the load (`load_all`) and the modules taken
  out while the process runs (`_deactivate`).

  What each check of a module finds on disk is a parameter (`Inspected`), and so is what comes
  of importing it.  No check runs a module, so each is made once, of each name.
-/
import Celerp.Events.Rebuilt
import Celerp.Modules.LoadOrder

namespace Celerp

open Dependencies

/-! ## Modules -/

/-- What the checks find of a module: whether it is first-party, what it depends on, the import
    names it answers to (`_import_roots`) and its projection handlers, no two of whose prefixes
    overlap (`_validate_projection_prefixes`). -/
structure ModuleCopy where
  firstParty : Bool
  dependsOn : List String
  roots : List String
  handlers : List (String × Handler)
  apart : handlers.Pairwise fun f g => projectionPrefixesOverlap f.1 g.1 = false

/-- `AdmittedModule` -/
structure AdmittedModule extends ModuleCopy where
  name : String

/-- The names of modules. -/
def moduleNames (modules : List AdmittedModule) : List String := modules.map (·.name)

/-- `CORE_FOLDED` -/
def CORE_FOLDED : List String := ["celerp-ai", "celerp-backup", "celerp-connectors"]

/-- `KERNEL_PROJECTION_PREFIXES` -/
def KERNEL_PROJECTION_PREFIXES : List String := ["sys.", "mp.", "shop.sync."]

/-! ## Names claimed -/

/-- First-party modules claim first, then the rest, in name order. -/
def ClaimsBefore (a b : AdmittedModule) : Prop :=
  (a.firstParty = true ∧ b.firstParty = false) ∨ (a.firstParty = b.firstParty ∧ a.name ≤ b.name)

instance : DecidableRel ClaimsBefore := fun _ _ => inferInstanceAs (Decidable (_ ∨ _))

/-- Claim names for a module. -/
def claimNames (claimed : List (String × String)) (names : List String) (owner : String) : List (String × String) :=
  names.foldl (fun claimed name => Dicts.set claimed name owner) claimed

/-- The enabled modules that are found, those refused, and the names installed. -/
structure Candidates where
  candidates : List AdmittedModule := []
  refused : List (String × LoadRefusal) := []
  installed : List String := []

/-- A candidate is refused. -/
def Candidates.refuse (s : Candidates) (name : String) (why : LoadRefusal) : Candidates :=
  { s with candidates := s.candidates.filter (·.name ≠ name), refused := Dicts.set s.refused name why }

/-- One candidate: refused where another has one of its import names, and else their owner. -/
def takeImportNames (acc : Candidates × List (String × String)) (m : AdmittedModule) :
    Candidates × List (String × String) :=
  match m.roots.findSome? (Dicts.get? acc.2) with
  | some owner =>
    let shared := (m.roots.filter fun r => Dicts.get? acc.2 r = some owner).insertionSort (· ≤ ·)
    (acc.1.refuse m.name (.sharedNames owner shared), acc.2)
  | none => (acc.1, claimNames acc.2 m.roots m.name)

/-- `_refuse_shared_import_names` -/
def Candidates.refuseSharedImportNames (s : Candidates) : Candidates :=
  ((s.candidates.insertionSort ClaimsBefore).foldl takeImportNames (s, [])).1

/-- Each claimed prefix with its claimant, and each module left out with its clash. -/
structure PrefixClaims where
  claimed : List (String × String)
  clashes : List (String × (String × String)) := []

/-- The prefixes a module claims. -/
def AdmittedModule.prefixes (m : AdmittedModule) : List String := m.handlers.map Prod.fst

/-- A module's prefix that overlaps a claimed one, with that one. -/
def PrefixClaims.clash (c : PrefixClaims) (prefixes : List String) : Option (String × String) :=
  prefixes.findSome? fun p => (c.claimed.find? fun taken => projectionPrefixesOverlap p taken.1).map fun taken => (p, taken.1)

/-- One module's claims. -/
def PrefixClaims.claim (c : PrefixClaims) (m : AdmittedModule) : PrefixClaims :=
  match c.clash m.prefixes with
  | some clash => { c with clashes := Dicts.set c.clashes m.name clash }
  | none => { c with claimed := claimNames c.claimed m.prefixes m.name }

/-- `claim_projection_prefixes` -/
def claimProjectionPrefixes (modules : List AdmittedModule) : PrefixClaims :=
  (modules.insertionSort ClaimsBefore).foldl PrefixClaims.claim ⟨KERNEL_PROJECTION_PREFIXES.map (·, "Celerp"), []⟩

/-- `_refuse_overlapping_projection_prefixes` -/
def Candidates.refuseOverlappingProjectionPrefixes (s : Candidates) : Candidates :=
  let claims := claimProjectionPrefixes s.candidates
  (claims.clashes.insertionSort (·.1 ≤ ·.1)).foldl (fun s f =>
    s.refuse f.1 (.overlaps f.2.1 f.2.2 ((Dicts.get? claims.claimed f.2.2).getD ""))) s

/-! ## Admission -/

/-- What is found of an enabled module. -/
inductive Inspected where
  /-- no copy is installed -/
  | missing
  /-- a default module is not installed, or fails a check: the start fails -/
  | stops (text : String)
  /-- a check fails, or the licence -/
  | refused (text : String)
  | found (copy : ModuleCopy)

/-- `Admission` -/
structure Admission where
  admitted : List AdmittedModule
  refused : List (String × LoadRefusal)

/-- The checks of one enabled module. -/
def Candidates.inspect (found : String → Inspected) (s : Candidates) (name : String) : Except String Candidates :=
  match found name with
  | .missing => .ok s
  | .stops text => .error text
  | .refused text =>
    .ok { s with installed := s.installed ++ [name], refused := Dicts.set s.refused name (.reason text) }
  | .found copy => .ok { s with installed := s.installed ++ [name], candidates := s.candidates ++ [⟨copy, name⟩] }

/-- `admit_modules` -/
def admitModules (found : String → Inspected) (enabled : List String) : Except String Admission := do
  let inspected ← ((enabled.dedup.filter (· ∉ CORE_FOLDED)).insertionSort (· ≤ ·)).foldlM (Candidates.inspect found) {}
  let s := inspected.refuseSharedImportNames.refuseOverlappingProjectionPrefixes
  match dependencyOrder (s.candidates.map fun m => (m.name, m.dependsOn)) enabled s.installed s.refused with
  | some o => .ok ⟨o.result.filterMap fun name => s.candidates.find? (·.name = name), o.errors⟩
  | none => .error "RecursionError"

/-- An admitted module, kept where neither it nor what it depends on is refused. -/
def Admission.keep (a : Admission) (m : AdmittedModule) : Admission :=
  if m.name ∈ Dicts.keys a.refused then a
  else match m.dependsOn.find? (· ∈ Dicts.keys a.refused) with
    | some dep => { a with refused := Dicts.set a.refused m.name (.failedToLoad dep) }
    | none => { a with admitted := a.admitted ++ [m] }

/-- `Admission.without` -/
def Admission.without (a : Admission) (failed : List (String × LoadRefusal)) : Admission :=
  a.admitted.foldl Admission.keep ⟨[], Dicts.update a.refused failed⟩

/-! ## Running -/

/-- The modules a process has loaded, and why the others are not. -/
structure Running where
  loaded : List AdmittedModule
  errors : List (String × LoadRefusal)

/-- `is_running` -/
def isRunning (loaded : List AdmittedModule) (name : String) : Bool := name ∈ moduleNames loaded || name ∈ CORE_FOLDED

/-- One module loaded, or not. -/
def Running.load (importModule : AdmittedModule → Except String Unit) (s : Running) (m : AdmittedModule) :
    Except String Running :=
  match m.dependsOn.find? (!isRunning s.loaded ·) with
  | some dep => .ok { s with errors := Dicts.set s.errors m.name (.failedToLoad dep) }
  | none =>
    match importModule m with
    | .ok () => .ok { s with loaded := s.loaded ++ [m] }
    | .error text =>
      if m.firstParty then .error text else .ok { s with errors := Dicts.set s.errors m.name (.reason text) }

/-- `load_all` -/
def loadAll (importModule : AdmittedModule → Except String Unit) (a : Admission) : Except String Running :=
  a.admitted.foldlM (Running.load importModule) ⟨[], a.refused⟩

/-- A module is taken out where what it depends on is. -/
def takeOut (out : List (String × LoadRefusal)) (m : AdmittedModule) : List (String × LoadRefusal) :=
  match m.dependsOn.find? (· ∈ Dicts.keys out) with
  | some dep => if m.name ∉ Dicts.keys out then Dicts.set out m.name (.failedToLoad dep) else out
  | none => out

/-- The modules taken out with one, each with its reason. -/
def Running.out (s : Running) (name : String) (why : LoadRefusal) : List (String × LoadRefusal) :=
  s.loaded.foldl takeOut [(name, why)]

/-- `_deactivate` -/
def Running.deactivate (s : Running) (name : String) (why : LoadRefusal) : Running :=
  ⟨s.loaded.filter (·.name ∉ Dicts.keys (s.out name why)), Dicts.update s.errors (s.out name why)⟩

/-- What the process replays events with: the kernel's handlers, and those of its modules. -/
def Running.build (kernel : List (String × Handler)) (s : Running) : Build := ⟨kernel ++ s.loaded.flatMap (·.handlers)⟩

end Celerp
