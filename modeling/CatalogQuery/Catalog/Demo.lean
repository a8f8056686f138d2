import CatalogQuery.Catalog.Seeder

/-!
# The demo catalog

One zone with four users and a group: `alice` owns 25 data objects, one of which the group may read,
and `bob` owns three. Every fifth object of `alice` has a quality and a temperature.
-/

namespace CatalogQuery

/-- How many rows a demo catalog has. -/
structure DemoSummary where
  dataObjects : Nat := 0
  collections : Nat := 0
  attributes : Nat := 0
  deriving DecidableEq, Repr

namespace Demo

open Seeder

def zoneName : String := "tempZone"

/-- The name of the n-th object of a series. -/
def runName (n : Nat) : String := (if n < 10 then "run0" else "run") ++ toString n ++ ".dat"

def storedFile (collection : Int) (path name owner : String) (size : Int) : ReplicaSpec :=
  ⟨collection, path, name, "demoResc", owner, zoneName, size⟩

/-- The attributes of the n-th object; the answer is their number. -/
def runAttributes (object : Int) (n : Nat) : Seeding Nat := do
  if n % 5 = 0 then
    let _ ← metadata object "quality" (if n % 10 = 0 then "good" else "poor") ""
    let _ ← metadata object "temperature" (toString (4 * n)) "K"
    return 2
  else return 0

/-- The n-th object of `alice`; the answer is the number of its attributes. -/
def runObject (collection alice everyone : Int) (path : String) (n : Nat) : Seeding Nat := do
  let object ← dataObject (storedFile collection path (runName n) "alice" (100 * n))
  grant object alice .own
  audit object alice 1000 "create"
  if n = 1 then grant object everyone .read
  runAttributes object n

def bobObject (collection bob rods : Int) (path name : String) : Seeding Unit := do
  let object ← dataObject (storedFile collection path name "bob" 42)
  grant object bob .own
  grant object rods .read

/-- Does a step for every member of a list and adds up the answers. -/
def total {α : Type} (f : α → Seeding Nat) : List α → Seeding Nat
  | [] => pure 0
  | a :: as => do
    let n ← f a
    let m ← total f as
    return n + m

/-- Creates the tables and fills them. What was added before a failure stays. -/
def fill : Seeding DemoSummary := do
  create
  let _ ← zone zoneName
  let rods ← user "rods" zoneName "rodsadmin"
  let alice ← user "alice" zoneName "rodsuser"
  let bob ← user "bob" zoneName "rodsuser"
  let anonymous ← user "anonymous" zoneName "rodsuser"
  let everyone ← group "public" zoneName
  addToGroup anonymous everyone
  addToGroup alice everyone
  addToGroup bob everyone
  let _ ← resource "demoResc" zoneName "localhost"
  let _ ← collection "/tempZone" "rods" zoneName
  let _ ← collection "/tempZone/home" "rods" zoneName
  let aliceHome := "/tempZone/home/alice"
  let aliceCollection ← collection aliceHome "alice" zoneName
  grant aliceCollection alice .own
  let _ ← metadata aliceCollection "project" "survey" ""
  let numbers := (List.range 25).map (· + 1)
  let attributes ← total (runObject aliceCollection alice everyone aliceHome) numbers
  let bobHome := "/tempZone/home/bob"
  let bobCollection ← collection bobHome "bob" zoneName
  grant bobCollection bob .own
  let names := ["notes.txt", "plot.png", "raw.bin"]
  let _ ← total (fun name => do bobObject bobCollection bob rods bobHome name; return 0) names
  return ⟨numbers.length + names.length, 4, attributes + 1⟩

end Demo

end CatalogQuery
