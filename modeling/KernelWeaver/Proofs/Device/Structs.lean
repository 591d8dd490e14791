import KernelWeaver.Generate.Program
import KernelWeaver.Proofs.Device.Memory
import KernelWeaver.Proofs.Outcome

/-!
# Where structs are placed

The structs on the device are placed one after the other in the memory spaces of the back end. Those
in constant memory therefore take no more of it than there is besides what is left to the compiler.
The tables of first lanes are in constant memory as well, but no room is set aside for them.
-/

namespace KernelWeaver.Generate

open Code MemorySpace

/-- The definition of a struct and the declaration of its array. -/
def declareStruct (s : CodeStream) (g : GroupStruct) (array : String) : CodeStream :=
  ((StructFields.writeDefinition g.fields g.id.structName s).line array).blank

/-- The definitions of structs on the device with arrays in the given spaces. -/
def declareAll (s : CodeStream) (groups : List (GroupStruct × Placement)) : CodeStream :=
  groups.foldl (fun s (g, p) => declareStruct s g
    (Cuda.structArray p.space g.id.structName g.id.deviceArray g.members.length)) s

/-- The placement is that of the structs of the group. -/
def IsPlacementOf (g : GroupStruct) (p : Placement) : Prop :=
  p.struct = g.id.structName ∧ g.bytes = .ok p.bytes

variable {c c' : StructCode} {spaces after : List MemorySpace} {g : GroupStruct}
  {groups : List GroupStruct}

theorem StructCode.definitions_of_add {array store : String} (h : c.add g array store = .ok c') :
    c'.definitions = declareStruct c.definitions g array := by
  obtain ⟨calls, _, heq⟩ := bind_eq_ok.mp h
  cases heq
  rfl

theorem StructCode.exists_of_addDevice (h : c.addDevice spaces g = .ok (c', after)) :
    ∃ p : Placement, IsPlacementOf g p ∧ place spaces p.struct p.bytes = .ok (p.space, after) ∧
      c'.definitions = declareAll c.definitions [(g, p)] := by
  obtain ⟨bytes, hbytes, h⟩ := bind_eq_ok.mp h
  obtain ⟨⟨space, between⟩, hplace, h⟩ := bind_eq_ok.mp h
  obtain ⟨c₁, hadd, heq⟩ := bind_eq_ok.mp h
  cases heq
  have hplace' : place spaces g.id.structName bytes = .ok (space, after) := by
    cases hresult : place spaces g.id.structName bytes with
    | error e =>
        rw [hresult] at hplace
        cases hplace
    | ok placed =>
        rw [hresult] at hplace
        cases hplace
        rfl
  exact ⟨⟨g.id.structName, bytes, space⟩, ⟨rfl, Attempt.ofChecked_eq_ok.mp hbytes⟩, hplace',
    definitions_of_add (Attempt.ofChecked_eq_ok.mp hadd)⟩

/-- The structs that are added are placed in order. -/
theorem StructCode.exists_of_addAll (h : c.addAll spaces groups = .ok (c', after)) :
    ∃ placed, Places spaces placed after ∧ List.Forall₂ IsPlacementOf groups placed ∧
      c'.definitions = declareAll c.definitions (groups.zip placed) := by
  induction groups generalizing c spaces with
  | nil =>
      cases h
      exact ⟨[], .nil, .nil, rfl⟩
  | cons g groups ih =>
      obtain ⟨⟨c₁, between⟩, hfirst, h⟩ := bind_eq_ok.mp h
      obtain ⟨p, hp, hplace, hdefinitions⟩ := exists_of_addDevice hfirst
      obtain ⟨placed, hplaces, hplaced, hrest⟩ := ih h
      refine ⟨p :: placed, .cons hplace hplaces, .cons hp hplaced, ?_⟩
      rw [hrest, hdefinitions]
      rfl

/-- The definitions of structs on the host with their arrays. -/
def declareHost (s : CodeStream) (groups : List GroupStruct) : CodeStream :=
  groups.foldl (fun s g => declareStruct s g
    (g.id.structName ++ " " ++ g.id.hostArray ++ "[" ++ toString g.members.length ++ "];")) s

theorem StructCode.definitions_of_addHosts
    (h : groups.foldlM (fun c g => Attempt.ofChecked (c.addHost g)) c = .ok c') :
    c'.definitions = declareHost c.definitions groups := by
  induction groups generalizing c with
  | nil =>
      cases h
      rfl
  | cons g groups ih =>
      rw [List.foldlM_cons] at h
      obtain ⟨c₁, hadd, h⟩ := bind_eq_ok.mp h
      rw [ih h, definitions_of_add (Attempt.ofChecked_eq_ok.mp hadd)]
      rfl

/-- The definitions of a program: structs on the device and on the host, the generator of the host,
tables of first lanes, and global variables. -/
def Target.definitions (t : Target) (device : List (GroupStruct × Placement))
    (host : List GroupStruct) (tables : List StartTable) (globals : CodeStream) : String :=
  let structs := declareHost (declareAll .empty device) host
  let random :=
    if t.hostUsesRandom then
      (structs.writeAll (Random.hostDeclarations t.model.precision)).blank
    else structs
  let lines := tables.map fun (name, ids) => Cuda.startTable name ids
  ((random.writeAll lines).appendBlock globals.text).text

/-- All structs on the device that kernels read. -/
def deviceStructs (updates : UpdateCode) (init : InitCode) : List GroupStruct :=
  updates.updates ++ updates.connectivity ++ init.groups

/-- The structs in constant memory leave the compiler its share of it. -/
theorem taken_constantSpace_le {b : Backend} {placed : List Placement}
    (h : Places b.spaces placed after) :
    taken Cuda.constantSpace placed ≤
      b.device.totalConstMem - b.preferences.constantOverhead := by
  have hother : Cuda.globalSpace ≠ Cuda.constantSpace := by decide
  have hroom : room Cuda.constantSpace b.spaces =
      b.device.totalConstMem - b.preferences.constantOverhead := by
    rw [Backend.spaces, room_cons, room_cons, if_pos rfl, if_neg hother]
    rfl
  have hsum := h.taken_add_room Cuda.constantSpace
  omega

/-- A program has its parts. Its structs on the device are placed in order, and those in constant
memory fit there. -/
theorem Program.exists_of_ofTarget {t : Target} {p : Program} (h : Program.ofTarget t = .ok p) :
    ∃ updates init placed after, writeUpdates t (.ofModel t.model) = .ok updates ∧
      writeInit t (.ofModel t.model) = .ok init ∧ Places t.backend.spaces placed after ∧
      List.Forall₂ IsPlacementOf (deviceStructs updates init) placed ∧
      taken Cuda.constantSpace placed ≤
        t.backend.device.totalConstMem - t.backend.preferences.constantOverhead ∧
      p.definitions = t.definitions ((deviceStructs updates init).zip placed) updates.host
        (updates.tables ++ init.tables) init.globals ∧
      p.update = (updates.kernels.appendBlock updates.launchers.text).text ∧
      p.init = init.code.text := by
  obtain ⟨updates, hupdates, h⟩ := bind_eq_ok.mp h
  obtain ⟨init, hinit, h⟩ := bind_eq_ok.mp h
  obtain ⟨⟨device, after⟩, hdevice, h⟩ := bind_eq_ok.mp h
  obtain ⟨structs, hhost, heq⟩ := bind_eq_ok.mp h
  cases heq
  obtain ⟨placed, hplaces, hplaced, hdefinitions⟩ := StructCode.exists_of_addAll hdevice
  have hstructs : structs.definitions =
      declareHost (declareAll .empty ((deviceStructs updates init).zip placed)) updates.host := by
    rw [StructCode.definitions_of_addHosts hhost, hdefinitions]
    rfl
  refine ⟨updates, init, placed, after, hupdates, hinit, hplaces, hplaced,
    taken_constantSpace_le hplaces, ?_, rfl, rfl⟩
  rw [Target.definitions, ← hstructs]

end KernelWeaver.Generate
