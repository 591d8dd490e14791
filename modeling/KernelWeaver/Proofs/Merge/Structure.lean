import KernelWeaver.Proofs.Digest.Encoding
import KernelWeaver.Proofs.Digest.Order

/-!
# What an encoding says of an update

The encodings by which updates are merged are compared with what they are about. Two updates have
the same encoding exactly if they agree in everything that the code made from it depends on.
-/

namespace KernelWeaver

open Encoding

/-- Two descriptions of custom updates with the same code and declarations, global parameters and
the functions of derived parameters apart. -/
structure UpdateModel.SameCode (m n : UpdateModel) : Prop where
  name : m.name = n.name
  code : m.code = n.code
  params : m.params = n.params
  derived : m.derived.map (·.name) = n.derived.map (·.name)
  vars : m.vars = n.vars
  refs : m.refs = n.refs

/-- Two descriptions of custom updates that agree, the functions of derived parameters apart. -/
structure UpdateModel.Alike (m n : UpdateModel) : Prop extends m.SameCode n where
  globals : m.globals = n.globals

/-- Two descriptions of connectivity updates with the same code and declarations, global parameters
and the functions of derived parameters apart. -/
structure ConnectivityModel.SameCode (m n : ConnectivityModel) : Prop where
  name : m.name = n.name
  rowCode : m.rowCode = n.rowCode
  hostCode : m.hostCode = n.hostCode
  params : m.params = n.params
  derived : m.derived.map (·.name) = n.derived.map (·.name)
  vars : m.vars = n.vars
  preVars : m.preVars = n.preVars
  postVars : m.postVars = n.postVars
  refs : m.refs = n.refs
  preRefs : m.preRefs = n.preRefs
  postRefs : m.postRefs = n.postRefs

/-- Two descriptions of connectivity updates that agree, the functions of derived parameters
apart. -/
structure ConnectivityModel.Alike (m n : ConnectivityModel) : Prop extends m.SameCode n where
  globals : m.globals = n.globals

/-- What code depends on of a variable that fills a slot: its type and whether every batch has a
copy. -/
def VarReference.shape (r : VarReference) : String × Bool := (r.type, r.duplicated)

/-- The same slots are filled, by variables of the same shape. -/
def BoundAlike (slots : List RefSlot) (refs refs' : Table VarReference) : Prop :=
  ∀ slot ∈ slots,
    (refs.find? slot.name).map VarReference.shape = (refs'.find? slot.name).map VarReference.shape

/-- Two ways to initialise a variable with the same code; constants count as the same. -/
def VarInit.SameCode : VarInit → VarInit → Prop
  | constant _, constant _ => True
  | code text _, code other _ => text = other
  | uninitialised, uninitialised => True
  | _, _ => False

/-- Each variable is initialised by the same code. -/
def InitAlike (vars : List Var) (inits inits' : Table VarInit) : Prop :=
  ∀ v ∈ vars, (initOf inits v).SameCode (initOf inits' v)

/-- The updates have the same code. -/
structure CustomUpdate.SameUpdate (u v : CustomUpdate) : Prop where
  model : u.model.Alike v.model
  group : u.group = v.group
  batched : u.batched = v.batched
  refs : BoundAlike u.model.refs u.refs v.refs

/-- The updates initialise their variables by the same code. -/
structure CustomUpdate.SameInit (u v : CustomUpdate) : Prop where
  model : u.model.Alike v.model
  batched : u.batched = v.batched
  inits : InitAlike u.model.vars u.inits v.inits

namespace ConnectivityUpdate

/-- The digests of the variables that the update does not name, in their order. -/
def dependentDigests (u : ConnectivityUpdate) : List Digest :=
  (u.dependentVars.map SynapseVar.digest).mergeSort Digest.le

/-- The updates have the same code for rows. -/
structure SameRows (u v : ConnectivityUpdate) : Prop where
  model : u.model.Alike v.model
  group : u.group = v.group
  refs : BoundAlike u.model.refs u.refs v.refs
  preRefs : BoundAlike u.model.preRefs u.preRefs v.preRefs
  postRefs : BoundAlike u.model.postRefs u.postRefs v.postRefs
  dependent : u.dependentDigests = v.dependentDigests

/-- The updates have the same code for the host. -/
structure SameHost (u v : ConnectivityUpdate) : Prop where
  model : u.model.Alike v.model
  group : u.group = v.group

/-- The updates initialise some of their variables by the same code. -/
structure SameInit (u : ConnectivityUpdate) (vars : ConnectivityModel → List Var)
    (inits : ConnectivityUpdate → Table VarInit) (v : ConnectivityUpdate) : Prop where
  model : u.model.Alike v.model
  inits : InitAlike (vars u.model) (inits u) (inits v)

end ConnectivityUpdate

section Parts

theorem tellsApart_var (v w : Var) : TellsApart v.encoding w.encoding (v = w) := by
  have htag : TellsApart (byte v.access.tag) (byte w.access.tag) (v.access = w.access) :=
    (TellsApart.byte (by cases v.access <;> decide) (by cases w.access <;> decide)).congr
      (by cases v.access <;> cases w.access <;> decide)
  apply (((TellsApart.text v.name w.name).append (.text v.type w.type)).append htag).congr
  cases v
  cases w
  simp [and_assoc]

theorem tellsApart_slot (s t : RefSlot) : TellsApart s.encoding t.encoding (s = t) := by
  apply (((TellsApart.text s.name t.name).append (.text s.type t.type)).append
    (.flag s.readOnly t.readOnly)).congr
  cases s
  cases t
  simp [and_assoc]

theorem tellsApart_vars (vs ws : List Var) :
    TellsApart (encodeList Var.encoding vs) (encodeList Var.encoding ws) (vs = ws) := by
  have hpos : ∀ v : Var, 0 < v.encoding.length := fun v => by
    have := length_text_pos v.name
    simp only [Var.encoding, List.length_append]
    omega
  exact .list_eq (fun v _ => hpos v) (fun w _ => hpos w) fun v _ w _ => tellsApart_var v w

theorem tellsApart_slots (ss ts : List RefSlot) :
    TellsApart (encodeList RefSlot.encoding ss) (encodeList RefSlot.encoding ts) (ss = ts) := by
  have hpos : ∀ s : RefSlot, 0 < s.encoding.length := fun s => by
    have := length_text_pos s.name
    simp only [RefSlot.encoding, List.length_append]
    omega
  exact .list_eq (fun s _ => hpos s) (fun t _ => hpos t) fun s _ t _ => tellsApart_slot s t

/-- Global parameters are encoded as the text that declares them. -/
theorem tellsApart_globals (gs hs : List GlobalParam) :
    TellsApart (encodeList GlobalParam.encoding gs) (encodeList GlobalParam.encoding hs)
      (List.Forall₂ (fun g h => g.type ++ " " ++ g.name = h.type ++ " " ++ h.name) gs hs) :=
  .list (fun _ _ => length_text_pos _) (fun _ _ => length_text_pos _) fun _ _ _ _ => .text _ _

/-- The name in a declaration is what stands behind the last space. -/
theorem GlobalParam.eq_of_declaration_eq {g h : GlobalParam} (hg : ' ' ∉ g.name.toList)
    (hh : ' ' ∉ h.name.toList) (heq : g.type ++ " " ++ g.name = h.type ++ " " ++ h.name) :
    g = h := by
  have hchars : g.type.toList ++ ' ' :: g.name.toList = h.type.toList ++ ' ' :: h.name.toList := by
    simpa using congrArg String.toList heq
  have hsame : g.type.toList = h.type.toList ∧ g.name.toList = h.name.toList := by
    rcases List.append_eq_append_iff.mp hchars with ⟨more, htype, hname⟩ | ⟨more, htype, hname⟩
    · cases more with
      | nil => simp_all
      | cons c more =>
          rw [(List.cons.inj hname).2] at hg
          simp at hg
    · cases more with
      | nil => simp_all
      | cons c more =>
          rw [(List.cons.inj hname).2] at hh
          simp at hh
  cases g
  cases h
  simpa [String.toList_inj, and_comm] using hsame

theorem tellsApart_globals_of_spaceless {gs hs : List GlobalParam}
    (hgs : ∀ g ∈ gs, ' ' ∉ g.name.toList) (hhs : ∀ h ∈ hs, ' ' ∉ h.name.toList) :
    TellsApart (encodeList GlobalParam.encoding gs) (encodeList GlobalParam.encoding hs)
      (gs = hs) := by
  apply TellsApart.list_eq (fun _ _ => length_text_pos _) (fun _ _ => length_text_pos _)
  intro g hg h hh
  exact (TellsApart.text _ _).congr
    ⟨GlobalParam.eq_of_declaration_eq (hgs g hg) (hhs h hh), fun heq => by rw [heq]⟩

theorem tellsApart_reference (r s : Option VarReference) :
    TellsApart
      (match r with
        | some r => byte 1 ++ r.encoding
        | none => byte 0)
      (match s with
        | some s => byte 1 ++ s.encoding
        | none => byte 0)
      (r.map VarReference.shape = s.map VarReference.shape) := by
  cases r <;> cases s
  case none.none => exact (TellsApart.of_length rfl).congr (by simp)
  case none.some =>
    exact (TellsApart.byte_ne (x := []) (by decide) (by decide) (by decide)).congr (by simp)
  case some.none =>
    exact (TellsApart.byte_ne (y := []) (by decide) (by decide) (by decide)).congr (by simp)
  case some.some r s =>
    apply ((TellsApart.byte (m := 1) (n := 1) (by decide) (by decide)).append
      ((TellsApart.text r.type s.type).append (.flag r.duplicated s.duplicated))).congr
    simp [VarReference.shape]

/-- The number of slots is not written, but both sides have the same slots. -/
theorem tellsApart_bound {slots slots' : List RefSlot} (h : slots = slots')
    (refs refs' : Table VarReference) :
    TellsApart (encodeBound slots refs) (encodeBound slots' refs')
      (BoundAlike slots refs refs') := by
  subst h
  exact (TellsApart.flatMap rfl fun a _ b _ =>
    tellsApart_reference (refs.find? a.name) (refs'.find? b.name)).congr List.forall₂_same

theorem tellsApart_init (i j : VarInit) : TellsApart i.encoding j.encoding (i.SameCode j) := by
  cases i <;> cases j
  case constant.constant | uninitialised.uninitialised =>
    exact (TellsApart.of_length rfl).congr (by simp [VarInit.SameCode, VarInit.encoding])
  case code.code text _ other _ =>
    exact ((TellsApart.byte (m := 1) (n := 1) (by decide) (by decide)).append
      (.text text other)).congr (by simp [VarInit.SameCode])
  case constant.code | uninitialised.code =>
    exact TellsApart.byte_ne (x := []) (by decide) (by decide) (by decide)
  case code.constant | code.uninitialised =>
    exact TellsApart.byte_ne (y := []) (by decide) (by decide) (by decide)
  case constant.uninitialised | uninitialised.constant =>
    exact TellsApart.byte_ne (x := []) (y := []) (by decide) (by decide) (by decide)

theorem tellsApart_inits {vars vars' : List Var} (h : vars = vars') (inits inits' : Table VarInit) :
    TellsApart (encodeInits vars inits) (encodeInits vars' inits')
      (InitAlike vars inits inits') := by
  subst h
  exact (TellsApart.flatMap rfl fun v _ w _ =>
    tellsApart_init (initOf inits v) (initOf inits' w)).congr List.forall₂_same

theorem ConnectivityUpdate.length_of_mem_dependentDigests {u : ConnectivityUpdate} {d : Digest}
    (hd : d ∈ u.dependentDigests) : (Encoding.digest d).length = 32 := by
  rw [dependentDigests, List.mem_mergeSort, List.mem_map] at hd
  obtain ⟨v, -, rfl⟩ := hd
  exact Digest.Blake3.length_hash _

theorem tellsApart_dependent (u v : ConnectivityUpdate) :
    TellsApart (encodeList Encoding.digest u.dependentDigests)
      (encodeList Encoding.digest v.dependentDigests)
      (u.dependentDigests = v.dependentDigests) := by
  have hpos : ∀ u : ConnectivityUpdate, ∀ d ∈ u.dependentDigests,
      0 < (Encoding.digest d).length := by
    intro u d hd
    rw [ConnectivityUpdate.length_of_mem_dependentDigests hd]
    decide
  apply TellsApart.list_eq (hpos u) (hpos v)
  intro d hd e he
  have hlength := (ConnectivityUpdate.length_of_mem_dependentDigests hd).trans
    (ConnectivityUpdate.length_of_mem_dependentDigests he).symm
  apply (TellsApart.of_length hlength).congr
  cases d
  cases e
  simp [Encoding.digest]

/-- Digests in order say which digests there are, and how often. -/
theorem ConnectivityUpdate.dependentDigests_eq_iff_perm {u v : ConnectivityUpdate} :
    u.dependentDigests = v.dependentDigests ↔
      (u.dependentVars.map SynapseVar.digest).Perm (v.dependentVars.map SynapseVar.digest) :=
  Digest.mergeSort_eq_iff_perm

theorem ConnectivityUpdate.length_encodeDependent (u : ConnectivityUpdate) :
    (encodeList Encoding.digest u.dependentDigests).length = 8 + 32 * u.dependentVars.length := by
  have hconst : u.dependentDigests.map (fun d => (Encoding.digest d).length) =
      List.replicate u.dependentVars.length 32 := by
    apply List.eq_replicate_iff.mpr
    constructor
    · simp [dependentDigests]
    · intro n hn
      obtain ⟨d, hd, rfl⟩ := List.mem_map.mp hn
      exact length_of_mem_dependentDigests hd
  rw [encodeList, List.length_append, List.length_flatMap, hconst, List.sum_replicate_nat, word64,
    length_littleEndian, Nat.mul_comm]

theorem ConnectivityUpdate.isHashable_encoding {u : ConnectivityUpdate}
    (h : (u.model.encoding ++ text u.group ++ encodeBound u.model.refs u.refs ++
      encodeBound u.model.preRefs u.preRefs ++ encodeBound u.model.postRefs u.postRefs).length +
      (8 + 32 * u.dependentVars.length) < 2 ^ 64) : IsHashable u.encoding := by
  rw [← length_encodeDependent, ← List.length_append] at h
  exact h

end Parts

/-- Global parameters are left open, since what their encodings say depends on their names. -/
theorem UpdateModel.tellsApart {m n : UpdateModel} {globals : Prop}
    (hglobals : TellsApart (encodeList GlobalParam.encoding m.globals)
      (encodeList GlobalParam.encoding n.globals) globals) :
    TellsApart m.encoding n.encoding (m.SameCode n ∧ globals) := by
  have hparts := (TellsApart.text m.name n.name).append (.text m.code n.code)
    |>.append (.texts m.params n.params)
    |>.append (.texts (m.derived.map (·.name)) (n.derived.map (·.name)))
    |>.append (tellsApart_vars m.vars n.vars)
    |>.append (tellsApart_slots m.refs n.refs)
    |>.append hglobals
  apply hparts.congr
  constructor
  · intro ⟨⟨⟨⟨⟨⟨hname, hcode⟩, hparams⟩, hderived⟩, hvars⟩, hrefs⟩, hglobals⟩
    exact ⟨⟨hname, hcode, hparams, hderived, hvars, hrefs⟩, hglobals⟩
  · intro ⟨h, hglobals⟩
    exact ⟨⟨⟨⟨⟨⟨h.name, h.code⟩, h.params⟩, h.derived⟩, h.vars⟩, h.refs⟩, hglobals⟩

theorem UpdateModel.tellsApart_alike {m n : UpdateModel}
    (hm : ∀ g ∈ m.globals, ' ' ∉ g.name.toList) (hn : ∀ g ∈ n.globals, ' ' ∉ g.name.toList) :
    TellsApart m.encoding n.encoding (m.Alike n) :=
  (tellsApart (tellsApart_globals_of_spaceless hm hn)).congr
    ⟨fun h => ⟨h.1, h.2⟩, fun h => ⟨h.toSameCode, h.globals⟩⟩

/-- Global parameters are left open, since what their encodings say depends on their names. -/
theorem ConnectivityModel.tellsApart {m n : ConnectivityModel} {globals : Prop}
    (hglobals : TellsApart (encodeList GlobalParam.encoding m.globals)
      (encodeList GlobalParam.encoding n.globals) globals) :
    TellsApart m.encoding n.encoding (m.SameCode n ∧ globals) := by
  have hparts := (TellsApart.text m.name n.name).append (.text m.rowCode n.rowCode)
    |>.append (.text m.hostCode n.hostCode)
    |>.append (.texts m.params n.params)
    |>.append (.texts (m.derived.map (·.name)) (n.derived.map (·.name)))
    |>.append (tellsApart_vars m.vars n.vars)
    |>.append (tellsApart_vars m.preVars n.preVars)
    |>.append (tellsApart_vars m.postVars n.postVars)
    |>.append (tellsApart_slots m.refs n.refs)
    |>.append (tellsApart_slots m.preRefs n.preRefs)
    |>.append (tellsApart_slots m.postRefs n.postRefs)
    |>.append hglobals
  apply hparts.congr
  constructor
  · intro ⟨⟨⟨⟨⟨⟨⟨⟨⟨⟨⟨hname, hrow⟩, hhost⟩, hparams⟩, hderived⟩, hvars⟩, hpre⟩, hpost⟩, hrefs⟩,
      hpreRefs⟩, hpostRefs⟩, hglobals⟩
    exact ⟨⟨hname, hrow, hhost, hparams, hderived, hvars, hpre, hpost, hrefs, hpreRefs, hpostRefs⟩,
      hglobals⟩
  · intro ⟨h, hglobals⟩
    exact ⟨⟨⟨⟨⟨⟨⟨⟨⟨⟨⟨h.name, h.rowCode⟩, h.hostCode⟩, h.params⟩, h.derived⟩, h.vars⟩, h.preVars⟩,
      h.postVars⟩, h.refs⟩, h.preRefs⟩, h.postRefs⟩, hglobals⟩

theorem ConnectivityModel.tellsApart_alike {m n : ConnectivityModel}
    (hm : ∀ g ∈ m.globals, ' ' ∉ g.name.toList) (hn : ∀ g ∈ n.globals, ' ' ∉ g.name.toList) :
    TellsApart m.encoding n.encoding (m.Alike n) :=
  (tellsApart (tellsApart_globals_of_spaceless hm hn)).congr
    ⟨fun h => ⟨h.1, h.2⟩, fun h => ⟨h.toSameCode, h.globals⟩⟩

/-- What the encoding for rows says besides what the description says. -/
theorem ConnectivityUpdate.tellsApart {u v : ConnectivityUpdate} {model : Prop}
    (hmodel : TellsApart u.model.encoding v.model.encoding model)
    (hcode : model → u.model.SameCode v.model) :
    TellsApart u.encoding v.encoding
      (model ∧ u.group = v.group ∧ BoundAlike u.model.refs u.refs v.refs ∧
        BoundAlike u.model.preRefs u.preRefs v.preRefs ∧
        BoundAlike u.model.postRefs u.postRefs v.postRefs ∧
        u.dependentDigests = v.dependentDigests) := by
  have hparts := (hmodel.append (.text u.group v.group))
    |>.append_of (fun h => tellsApart_bound (hcode h.1).refs u.refs v.refs)
    |>.append_of (fun h => tellsApart_bound (hcode h.1.1).preRefs u.preRefs v.preRefs)
    |>.append_of (fun h => tellsApart_bound (hcode h.1.1.1).postRefs u.postRefs v.postRefs)
    |>.append (tellsApart_dependent u v)
  apply hparts.congr
  simp only [and_assoc]

section Updates

variable {u v : CustomUpdate}
  (hmodel : TellsApart u.model.encoding v.model.encoding (u.model.Alike v.model))
include hmodel

theorem CustomUpdate.tellsApart_update :
    TellsApart u.encoding v.encoding (u.SameUpdate v) := by
  have hparts := (hmodel.append (.text u.group v.group))
    |>.append (.flag u.batched v.batched)
    |>.append_of (fun h => tellsApart_bound h.1.1.refs u.refs v.refs)
  apply hparts.congr
  constructor
  · intro ⟨⟨⟨hmodel, hgroup⟩, hbatched⟩, hrefs⟩
    exact ⟨hmodel, hgroup, hbatched, hrefs⟩
  · intro h
    exact ⟨⟨⟨h.model, h.group⟩, h.batched⟩, h.refs⟩

theorem CustomUpdate.tellsApart_init :
    TellsApart u.initEncoding v.initEncoding (u.SameInit v) := by
  have hparts := (hmodel.append (.flag u.batched v.batched))
    |>.append_of (fun h => tellsApart_inits h.1.vars u.inits v.inits)
  apply hparts.congr
  constructor
  · intro ⟨⟨hmodel, hbatched⟩, hinits⟩
    exact ⟨hmodel, hbatched, hinits⟩
  · intro h
    exact ⟨⟨h.model, h.batched⟩, h.inits⟩

end Updates

namespace ConnectivityUpdate

variable {u v : ConnectivityUpdate}
  (hmodel : TellsApart u.model.encoding v.model.encoding (u.model.Alike v.model))
include hmodel

theorem tellsApart_rows : TellsApart u.encoding v.encoding (u.SameRows v) := by
  apply (tellsApart hmodel ConnectivityModel.Alike.toSameCode).congr
  constructor
  · intro ⟨hmodel, hgroup, hrefs, hpreRefs, hpostRefs, hdependent⟩
    exact ⟨hmodel, hgroup, hrefs, hpreRefs, hpostRefs, hdependent⟩
  · intro h
    exact ⟨h.model, h.group, h.refs, h.preRefs, h.postRefs, h.dependent⟩

theorem tellsApart_host : TellsApart u.hostEncoding v.hostEncoding (u.SameHost v) :=
  (hmodel.append (.text u.group v.group)).congr
    ⟨fun h => ⟨h.1, h.2⟩, fun h => ⟨h.model, h.group⟩⟩

theorem tellsApart_init {vars : ConnectivityModel → List Var}
    (inits : ConnectivityUpdate → Table VarInit)
    (hvars : u.model.Alike v.model → vars u.model = vars v.model) :
    TellsApart (u.model.encoding ++ encodeInits (vars u.model) (inits u))
      (v.model.encoding ++ encodeInits (vars v.model) (inits v)) (u.SameInit vars inits v) :=
  (hmodel.append_of fun h => tellsApart_inits (hvars h) (inits u) (inits v)).congr
    ⟨fun h => ⟨h.1, h.2⟩, fun h => ⟨h.model, h.inits⟩⟩

end ConnectivityUpdate

/-- Merging is by structure. Whatever two updates say, each of the encodings by which they are
merged is the same for both exactly if they agree in what the encoding is about. The names of global
parameters have no spaces, and an encoding is no longer than the hash function can take. -/
theorem encodings_eq_iff_same_structure {u v : CustomUpdate} {x y : ConnectivityUpdate}
    (hu : ∀ g ∈ u.model.globals, ' ' ∉ g.name.toList)
    (hv : ∀ g ∈ v.model.globals, ' ' ∉ g.name.toList)
    (hx : ∀ g ∈ x.model.globals, ' ' ∉ g.name.toList)
    (hy : ∀ g ∈ y.model.globals, ' ' ∉ g.name.toList)
    (hhash : ∀ e ∈ [u.encoding, u.initEncoding, x.encoding, x.hostEncoding, x.preInitEncoding,
      x.postInitEncoding, x.sparseInitEncoding], IsHashable e) :
    (u.encoding = v.encoding ↔ u.SameUpdate v) ∧
    (u.initEncoding = v.initEncoding ↔ u.SameInit v) ∧
    (x.encoding = y.encoding ↔ x.SameRows y) ∧
    (x.hostEncoding = y.hostEncoding ↔ x.SameHost y) ∧
    (x.preInitEncoding = y.preInitEncoding ↔
      x.SameInit ConnectivityModel.preVars ConnectivityUpdate.preInits y ∧
        x.model.usesRandom = y.model.usesRandom) ∧
    (x.postInitEncoding = y.postInitEncoding ↔
      x.SameInit ConnectivityModel.postVars ConnectivityUpdate.postInits y) ∧
    (x.sparseInitEncoding = y.sparseInitEncoding ↔
      x.SameInit ConnectivityModel.vars ConnectivityUpdate.inits y) := by
  have huv := UpdateModel.tellsApart_alike hu hv
  have hxy := ConnectivityModel.tellsApart_alike hx hy
  simp only [List.forall_mem_cons] at hhash
  obtain ⟨hupdate, hinit, hrows, hhost, hpre, hpost, hsparse, -⟩ := hhash
  exact ⟨(CustomUpdate.tellsApart_update huv).eq_iff hupdate,
    (CustomUpdate.tellsApart_init huv).eq_iff hinit,
    (ConnectivityUpdate.tellsApart_rows hxy).eq_iff hrows,
    (ConnectivityUpdate.tellsApart_host hxy).eq_iff hhost,
    ((ConnectivityUpdate.tellsApart_init hxy _ fun h => h.preVars).append (.flag _ _)).eq_iff hpre,
    (ConnectivityUpdate.tellsApart_init hxy _ fun h => h.postVars).eq_iff hpost,
    (ConnectivityUpdate.tellsApart_init hxy _ fun h => h.vars).eq_iff hsparse⟩

/-- An update that scales a variable of a population. -/
def scaling (name : String) (factor : Float) (duplicated : Bool) : CustomUpdate where
  name
  group := "tick"
  model :=
    { name := "Scale"
      params := ["factor"]
      derived := [⟨"rate", fun _ dt => factor * dt⟩]
      vars := [⟨"x", "scalar", .readWrite⟩]
      refs := [⟨"target", "scalar", false⟩]
      globals := [⟨"table", "scalar*"⟩]
      code := "target *= factor;" }
  params := [("factor", factor)]
  inits := [("x", .constant factor)]
  refs := [("target", ⟨"Cells", "V", "scalar", duplicated⟩)]
  size := 10
  batched := true

/-- An update that removes weak synapses of a group in which other variables are stored as well. -/
def thinning (name : String) (init : VarInit) (stored : List SynapseVar) : ConnectivityUpdate where
  name
  group := "late"
  model :=
    { name := "Thin"
      params := []
      derived := []
      vars := [⟨"age", "int", .readWrite⟩]
      preVars := [⟨"n", "scalar", .readWrite⟩]
      postVars := []
      refs := [⟨"g", "scalar", false⟩]
      preRefs := []
      postRefs := []
      globals := []
      rowCode := "for_each_synapse \x7b if(g < 0.1) \x7b remove_synapse(); \x7d \x7d"
      hostCode := "" }
  params := []
  synapses :=
    { name := "Syn"
      numPre := 4
      numPost := 8
      rowStride := 3
      vars := [⟨"Syn", "g", "scalar", false⟩, ⟨name, "age", "int", false⟩] ++ stored }
  inits := []
  preInits := [("n", init)]
  postInits := []
  refs := [("g", ⟨"Syn", "g", "scalar", false⟩)]
  preRefs := []
  postRefs := []

def thinningTrace : ConnectivityUpdate :=
  thinning "A" (.constant 1.0)
    [⟨"Syn", "trace", "scalar", true⟩, ⟨"Syn", "count", "int", false⟩]

/-- The other variables are stored in another order. -/
def thinningCount : ConnectivityUpdate :=
  thinning "B" .uninitialised
    [⟨"Syn", "m", "int", false⟩, ⟨"Syn", "e", "scalar", true⟩]

theorem dependentVars_thinningTrace : thinningTrace.dependentVars =
    [⟨"Syn", "trace", "scalar", true⟩, ⟨"Syn", "count", "int", false⟩] := by
  decide +kernel

theorem dependentVars_thinningCount : thinningCount.dependentVars =
    [⟨"Syn", "m", "int", false⟩, ⟨"Syn", "e", "scalar", true⟩] := by
  decide +kernel

theorem isHashable_thinningTrace : IsHashable thinningTrace.encoding := by
  apply ConnectivityUpdate.isHashable_encoding
  decide +kernel

theorem sameRows_thinning : thinningTrace.SameRows thinningCount := by
  have hdependent : thinningTrace.dependentDigests = thinningCount.dependentDigests := by
    rw [ConnectivityUpdate.dependentDigests_eq_iff_perm, dependentVars_thinningTrace,
      dependentVars_thinningCount]
    exact .swap _ _ _
  exact ⟨⟨⟨rfl, rfl, rfl, rfl, rfl, rfl, rfl, rfl, rfl, rfl, rfl⟩, rfl⟩, rfl, fun _ _ => rfl,
    fun _ _ => rfl, fun _ _ => rfl, hdependent⟩

/-- Values do not count, the copies of what fills a slot do. The order in which variables are stored
that an update does not name does not count, the code that initialises its own variables does. -/
theorem encodings_eq_iff_same_structure_scaling_thinning :
    ∃ (u v : CustomUpdate) (x y : ConnectivityUpdate),
      u.encoding ≠ v.encoding ∧ u.initEncoding = v.initEncoding ∧
      x.dependentVars.map (·.type) = ["scalar", "int"] ∧
      y.dependentVars.map (·.type) = ["int", "scalar"] ∧
      x.encoding = y.encoding ∧ x.preInitEncoding ≠ y.preInitEncoding := by
  let u := scaling "A" 0.5 true
  let v := scaling "B" 2.0 false
  obtain ⟨hupdate, hinit, hrows, -, hpre, -, -⟩ := encodings_eq_iff_same_structure
    (u := u) (v := v) (x := thinningTrace) (y := thinningCount)
    (by decide) (by decide) (by decide) (by decide) (by
      simp only [List.forall_mem_cons]
      refine ⟨?_, ?_, isHashable_thinningTrace, ?_, ?_, ?_, ?_, List.forall_mem_nil _⟩ <;>
        decide +kernel)
  refine ⟨u, v, thinningTrace, thinningCount, ?_, ?_, ?_, ?_, hrows.mpr sameRows_thinning, ?_⟩
  · intro heq
    have hrefs := (hupdate.mp heq).refs ⟨"target", "scalar", false⟩ (List.mem_singleton_self _)
    simp [u, v, scaling, Table.find?, VarReference.shape] at hrefs
  · apply hinit.mpr
    have hderived : u.model.derived.map (·.name) = v.model.derived.map (·.name) := by
      simp [u, v, scaling]
    refine ⟨⟨⟨rfl, rfl, rfl, hderived, rfl, rfl⟩, rfl⟩, rfl, ?_⟩
    simp [InitAlike, u, v, scaling, initOf, Table.find?, VarInit.SameCode]
  · rw [dependentVars_thinningTrace]
    rfl
  · rw [dependentVars_thinningCount]
    rfl
  · intro heq
    exact (hpre.mp heq).1.inits ⟨"n", "scalar", .readWrite⟩ (List.mem_singleton_self _)

end KernelWeaver
