import KernelWeaver.Proofs.Code.Run
import Mathlib.Data.List.Infix
import Mathlib.Data.List.TakeWhile

/-!
# The markers of a template

A text divides in one way into markers, found from the left, and plain segments that are as long as
they can be. Rendering looks up the names of the markers one after another, up to the first failure,
and puts what is found between the plain segments, which stay as they are.
-/

namespace KernelWeaver.Code

namespace Template

variable {c : Char} {cs name text rest before after : List Char} {t t' : Template}

/-- The name in a marker: a letter of ASCII or an underscore, and word characters behind it. -/
def IsMarkerName (name : List Char) : Prop :=
  ∃ c cs, name = c :: cs ∧ (c.isAlpha = true ∨ c = '_') ∧ ∀ d ∈ cs, Text.isWordChar d = true

/-- A marker for the name stands at the front of the text. -/
def BeginsWithMarker (name text : List Char) : Prop :=
  IsMarkerName name ∧ (Segment.marker name).written <+: text

/-- No marker begins in `cs`, where it stands in front of `rest`. -/
def IsPlain (cs rest : List Char) : Prop :=
  ∀ u v, cs = u ++ v → v ≠ [] → ∀ name, ¬BeginsWithMarker name (v ++ rest)

/-- A division of a text into markers and plain segments. In a plain segment no marker begins, so
markers are found from the left, and no other plain segment stands next to it. -/
inductive Divides : Template → List Char → Prop where
  | nil : Divides [] []
  | marker {name rest : List Char} {t : Template} : IsMarkerName name → Divides t rest →
      Divides (.marker name :: t) ((Segment.marker name).written ++ rest)
  | text {cs rest : List Char} {t : Template} : cs ≠ [] → IsPlain cs rest →
      (∀ ds, t.head? ≠ some (.text ds)) → Divides t rest → Divides (.text cs :: t) (cs ++ rest)

/-! ### Reading -/

theorem not_isWordChar_close : Text.isWordChar ')' = false := by decide

theorem IsMarkerName.dollar_notMem (h : IsMarkerName name) : '$' ∉ name := by
  obtain ⟨c, cs, rfl, hc, hcs⟩ := h
  rintro (_ | ⟨_, hmem⟩)
  · revert hc
    decide
  · have hword := hcs _ hmem
    revert hword
    decide

/-- Word characters are taken up to the parenthesis. -/
theorem markerName?_written (h : IsMarkerName name) (rest : List Char) :
    markerName? ((Segment.marker name).written ++ rest) = some name := by
  obtain ⟨c, cs, rfl, hc, hcs⟩ := h
  have htake : (cs ++ ')' :: rest).takeWhile Text.isWordChar = cs := by
    rw [List.takeWhile_append_of_pos hcs,
      List.takeWhile_cons_of_neg (by simp [not_isWordChar_close]), List.append_nil]
  have hdrop : (cs ++ ')' :: rest).dropWhile Text.isWordChar = ')' :: rest := by
    rw [List.dropWhile_append_of_pos hcs,
      List.dropWhile_cons_of_neg (by simp [not_isWordChar_close])]
  have hstart : isNameStart c = true := by simpa [isNameStart] using hc
  have hchars : (Segment.marker (c :: cs)).written ++ rest =
      '$' :: '(' :: c :: (cs ++ ')' :: rest) := by
    simp [Segment.written]
  rw [hchars, markerName?, htake, hdrop, if_pos ⟨hstart, rfl⟩]

theorem markerName?_eq_some_iff : markerName? text = some name ↔ BeginsWithMarker name text := by
  constructor
  · intro h
    refine ⟨?_, ⟨_, (eq_written_of_markerName? h).symm⟩⟩
    unfold markerName? at h
    split at h
    next c cs =>
      split at h
      next hmarker =>
        cases h
        exact ⟨c, _, rfl, by simpa [isNameStart] using hmarker.1,
          fun d hd => List.mem_takeWhile_imp hd⟩
      next => cases h
    next => cases h
  · rintro ⟨hname, rest, rfl⟩
    exact markerName?_written hname rest

theorem markerName?_eq_none_iff :
    markerName? text = none ↔ ∀ name, ¬BeginsWithMarker name text := by
  rw [Option.eq_none_iff_forall_ne_some]
  exact forall_congr' fun name => not_congr markerName?_eq_some_iff

theorem readFrom_marker (h : IsMarkerName name) (rest : List Char) :
    readFrom 0 ((Segment.marker name).written ++ rest) = .marker name :: readFrom 0 rest := by
  have hname := markerName?_written h rest
  simp only [Segment.written, List.cons_append] at hname ⊢
  rw [readFrom, hname]
  dsimp only
  rw [readFrom_eq_drop]
  simp

theorem isPlain_of_not_mem (h : '$' ∉ cs) (rest : List Char) : IsPlain cs rest := by
  rintro u v rfl hne name ⟨-, hbegins⟩
  obtain ⟨c, v, rfl⟩ := List.exists_cons_of_ne_nil hne
  obtain ⟨rfl, -⟩ := List.cons_prefix_cons.mp hbegins
  exact h (List.mem_append_right u List.mem_cons_self)

/-- Where no marker begins, the characters are put in front one by one. -/
theorem readFrom_plain (h : IsPlain cs rest) :
    readFrom 0 (cs ++ rest) = cs.foldr push (readFrom 0 rest) := by
  induction cs with
  | nil => rfl
  | cons c cs ih =>
      have hnone : markerName? (c :: (cs ++ rest)) = none :=
        markerName?_eq_none_iff.mpr (h [] (c :: cs) rfl (List.cons_ne_nil c cs))
      have hbehind : IsPlain cs rest := fun u v heq => h (c :: u) v (congrArg (c :: ·) heq)
      rw [List.cons_append, readFrom, hnone]
      exact congrArg (push c) (ih hbehind)

/-- Characters in front of a template without plain text at its front are a segment of their own. -/
theorem foldr_push (hne : cs ≠ []) (ht : ∀ ds, t.head? ≠ some (.text ds)) :
    cs.foldr push t = .text cs :: t := by
  induction cs with
  | nil => exact absurd rfl hne
  | cons c cs ih =>
      rw [List.foldr_cons]
      cases cs with
      | nil =>
          rw [List.foldr_nil, push.eq_def]
          split
          next ds _ => exact absurd rfl (ht ds)
          next => rfl
      | cons d cs => rw [ih (List.cons_ne_nil d cs), push]

namespace Divides

/-- There is no other division than the one that is read. -/
theorem readFrom_eq (h : Divides t text) : readFrom 0 text = t := by
  induction h with
  | nil => rfl
  | marker hname _ ih => rw [readFrom_marker hname, ih]
  | text hne hplain hnext _ ih => rw [readFrom_plain hplain, ih, foldr_push hne hnext]

theorem written_eq (h : Divides t text) : t.written = text := by
  induction h with
  | nil => rfl
  | marker _ _ ih => rw [← ih]; rfl
  | text _ _ _ _ ih => rw [← ih]; rfl

/-- A character that begins no marker goes to the plain text behind it. -/
theorem push (hnone : ∀ name, ¬BeginsWithMarker name (c :: text)) (h : Divides t text) :
    Divides (Template.push c t) (c :: text) := by
  have halone : ∀ rest, (∀ name, ¬BeginsWithMarker name (c :: rest)) → IsPlain [c] rest := by
    intro rest hnone u v heq hne
    obtain ⟨rfl, rfl⟩ | ⟨-, rfl⟩ := List.singleton_eq_append_iff.mp heq
    · exact hnone
    · exact absurd rfl hne
  cases h with
  | nil => exact .text (List.cons_ne_nil c []) (halone [] hnone) (by simp) .nil
  | marker hname h =>
      exact .text (List.cons_ne_nil c []) (halone _ hnone) (by simp) (.marker hname h)
  | @text cs rest t hne hplain hnext h =>
      refine .text (List.cons_ne_nil c cs) ?_ hnext h
      intro u v heq hv
      cases u with
      | nil =>
          rw [← List.nil_append v, ← heq]
          exact hnone
      | cons d u => exact hplain u v (List.cons.inj heq).2 hv

end Divides

theorem divides_readFrom (text : List Char) : Divides (readFrom 0 text) text := by
  induction hlength : text.length using Nat.strong_induction_on generalizing text with
  | h n ih =>
    cases text with
    | nil => exact .nil
    | cons c cs =>
        cases hname : markerName? (c :: cs) with
        | none =>
            rw [readFrom, hname]
            have hrest := ih cs.length (by rw [← hlength]; exact Nat.lt_succ_self _) cs rfl
            exact hrest.push (markerName?_eq_none_iff.mp hname)
        | some name =>
            obtain ⟨hmarker, rest, hrest⟩ := markerName?_eq_some_iff.mp hname
            have hshort : rest.length < n := by
              rw [← hlength, ← hrest, List.length_append]
              simp [Segment.written]
            rw [← hrest, readFrom_marker hmarker]
            exact .marker hmarker (ih _ hshort rest rfl)

/-! ### What begins like a marker -/

/-- What stands behind `$(` makes no marker of it: no name begins there, or the name is followed by
something else than the closing parenthesis, or by nothing. -/
def IsMalformed (after : List Char) : Prop :=
  (∀ c ∈ after.head?, c.isAlpha = false ∧ c ≠ '_') ∨
    ∃ name rest, IsMarkerName name ∧ after = name ++ rest ∧
      ∀ c ∈ rest.head?, Text.isWordChar c = false ∧ c ≠ ')'

theorem IsMalformed.not_beginsWithMarker (h : IsMalformed after) (name : List Char) :
    ¬BeginsWithMarker name ('$' :: '(' :: after) := by
  rintro ⟨hname, rest, hrest⟩
  rw [Segment.written, List.cons_append, List.cons_append, List.cons_append] at hrest
  obtain rfl : name ++ [')'] ++ rest = after := by simpa using hrest
  have hread := markerName?_written hname rest
  obtain ⟨c, cs, rfl, hc, hcs⟩ := hname
  rcases h with hstart | ⟨other, behind, ⟨d, ds, rfl, -, hds⟩, heq, hbehind⟩
  · obtain ⟨hletter, hunderscore⟩ := hstart c rfl
    rw [hletter] at hc
    exact hc.elim Bool.noConfusion hunderscore
  · -- both names are the longest run of word characters behind the first one
    obtain ⟨-, heq⟩ : c = d ∧ cs ++ ')' :: rest = ds ++ behind := by simpa using heq
    have hfirst : (cs ++ ')' :: rest).dropWhile Text.isWordChar = ')' :: rest := by
      rw [List.dropWhile_append_of_pos hcs]
      exact List.dropWhile_cons_of_neg (by simp [not_isWordChar_close])
    have hsecond : (ds ++ behind).dropWhile Text.isWordChar = behind := by
      rw [List.dropWhile_append_of_pos hds]
      cases behind with
      | nil => rfl
      | cons e behind => exact List.dropWhile_cons_of_neg (by simp [(hbehind e rfl).1])
    obtain rfl : ')' :: rest = behind := by rw [← hfirst, heq, hsecond]
    exact (hbehind ')' rfl).2 rfl

/-- The `$(` between `before` and `after` is in a plain segment. -/
def KeepsOpening (t : Template) (before after : List Char) : Prop :=
  ∃ (t₁ t₂ : Template) (u v : List Char), t = t₁ ++ .text (u ++ '$' :: '(' :: v) :: t₂ ∧
    before = t₁.written ++ u ∧ after = v ++ t₂.written

theorem KeepsOpening.cons (h : KeepsOpening t before after) (segment : Segment) :
    KeepsOpening (segment :: t) (segment.written ++ before) after := by
  obtain ⟨t₁, t₂, u, v, rfl, rfl, rfl⟩ := h
  exact ⟨segment :: t₁, t₂, u, v, rfl, by simp [written], rfl⟩

/-- What begins like a marker and is none is plain text. -/
theorem Divides.keepsOpening (h : Divides t text) (htext : text = before ++ '$' :: '(' :: after)
    (hmalformed : IsMalformed after) : KeepsOpening t before after := by
  induction h generalizing before with
  | nil => simp at htext
  | @marker name rest t hname h ih =>
      rcases List.append_eq_append_iff.mp htext with ⟨more, rfl, hrest⟩ | ⟨more, hmarker, hrest⟩
      · exact (ih hrest).cons _
      · cases more with
        | nil =>
            rw [List.append_nil] at hmarker
            rw [← hmarker, ← List.append_nil (Segment.written _)]
            exact (@ih [] hrest.symm).cons _
        | cons d more =>
            -- a dollar in a marker is the first character of it
            obtain ⟨rfl, -⟩ := List.cons.inj hrest
            cases before with
            | nil =>
                refine absurd ⟨hname, rest, ?_⟩ (hmalformed.not_beginsWithMarker name)
                rw [hmarker, hrest]
                rfl
            | cons e before =>
                have hbehind : '(' :: name ++ [')'] = before ++ '$' :: more :=
                  (List.cons.inj hmarker).2
                have hmem : '$' ∈ '(' :: name ++ [')'] :=
                  hbehind ▸ List.mem_append_right before List.mem_cons_self
                simp [hname.dollar_notMem] at hmem
  | @text cs rest t hne hplain hnext h ih =>
      rcases List.append_eq_append_iff.mp htext with ⟨more, rfl, hrest⟩ | ⟨more, rfl, hrest⟩
      · exact (ih hrest).cons (.text cs)
      · rcases more with _ | ⟨d, _ | ⟨e, more⟩⟩
        · have hkept := (@ih [] hrest.symm).cons (.text before)
          simpa [Segment.written] using hkept
        · -- no segment begins with the parenthesis: a plain one would belong to the one before
          have hparen : rest = '(' :: after := (List.cons.inj hrest).2.symm
          cases h with
          | nil => cases hparen
          | marker => cases hparen
          | text => exact absurd rfl (hnext _)
        · obtain ⟨rfl, hbehind⟩ := List.cons.inj hrest
          obtain ⟨rfl, rfl⟩ := List.cons.inj hbehind
          exact ⟨[], t, before, more, rfl, rfl, by rw [h.written_eq]; rfl⟩

/-! ### Rendering -/

/-- The text of a template with texts in the places of its markers, in order. -/
def weave : Template → List String → String
  | [], _ => ""
  | .text cs :: t, texts => String.ofList cs ++ weave t texts
  | .marker _ :: t, texts => texts.headD "" ++ weave t texts.tail

@[simp] theorem markerNames_text (cs : List Char) (t : Template) :
    markerNames (.text cs :: t) = markerNames t := rfl

@[simp] theorem markerNames_marker (name : List Char) (t : Template) :
    markerNames (.marker name :: t) = String.ofList name :: markerNames t := rfl

theorem weave_append (t t' : Template) (texts : List String) :
    (t ++ t').weave texts = t.weave (texts.take t.markerNames.length) ++
      t'.weave (texts.drop t.markerNames.length) := by
  induction t generalizing texts with
  | nil => simp [weave, markerNames]
  | cons segment t ih =>
      cases segment with
      | text cs =>
          rw [List.cons_append, weave, weave, ih, markerNames_text, String.append_assoc]
      | marker name =>
          rw [List.cons_append, weave, weave, ih, markerNames_marker, String.append_assoc]
          cases texts <;> simp

/-- Putting every marker in its own place gives the template as written. -/
theorem weave_markers (t : Template) :
    t.weave (t.markerNames.map fun name => "$(" ++ name ++ ")") = String.ofList t.written := by
  induction t with
  | nil => rfl
  | cons segment t ih =>
      cases segment with
      | text cs =>
          rw [weave, markerNames_text, ih]
          simp [written, Segment.written]
      | marker name =>
          rw [markerNames_marker, List.map_cons, weave, List.headD_cons, List.tail_cons, ih]
          simp [written, Segment.written, String.ext_iff]

/-- Rendering looks up the names of the markers one after another. -/
theorem render_eq_map_mapM {m : Type → Type} [Monad m] [LawfulMonad m]
    (lookup : String → m String) (t : Template) :
    t.render lookup = t.weave <$> t.markerNames.mapM lookup := by
  induction t with
  | nil => simp [render, markerNames, weave]
  | cons segment t ih =>
      cases segment with
      | text cs =>
          rw [render, markerNames_text, ih]
          simp only [weave, map_eq_pure_bind, bind_assoc, pure_bind]
      | marker name =>
          rw [render, markerNames_marker, ih, List.mapM_cons]
          simp only [weave, map_eq_pure_bind, bind_assoc, pure_bind, List.headD_cons,
            List.tail_cons]

section Recording

variable {σ ε : Type} {lookup : String → ExceptT ε (StateM σ) String} {s s' : σ}

/-- The lookup with a record of the names that it has been asked for. -/
def recording (lookup : String → ExceptT ε (StateM σ) String) (name : String) :
    ExceptT ε (StateM (σ × List String)) String :=
  ExceptT.mk fun (s, asked) =>
    let (found, s') := (lookup name).run.run s
    (found, s', asked ++ [name])

/-- The lookup finds the texts for the names, which it is asked for one after another, and leads
from one state to another. -/
inductive Finds (lookup : String → ExceptT ε (StateM σ) String) :
    List String → σ → List String → σ → Prop where
  | nil {s : σ} : Finds lookup [] s [] s
  | cons {name text : String} {names texts : List String} {s s₁ s₂ : σ} :
      (lookup name).run.run s = (.ok text, s₁) → Finds lookup names s₁ texts s₂ →
      Finds lookup (name :: names) s (text :: texts) s₂

theorem run_recording {name : String} {found : Except ε String}
    (h : (lookup name).run.run s = (found, s')) (asked : List String) :
    (recording lookup name).run.run (s, asked) = (found, s', asked ++ [name]) := by
  change (let (found, s') := (lookup name).run.run s; (found, s', asked ++ [name])) = _
  rw [h]

/-- What comes of rendering, and the names that the lookup was asked for: every name is found, or
the lookup fails at one and is not asked for those behind it. -/
inductive Renders (lookup : String → ExceptT ε (StateM σ) String) (t : Template) (s : σ) :
    Except ε String → σ → List String → Prop where
  | found {texts : List String} {s' : σ} : Finds lookup t.markerNames s texts s' →
      Renders lookup t s (.ok (t.weave texts)) s' t.markerNames
  | failed {before after texts : List String} {name : String} {s₁ s' : σ} {e : ε} :
      t.markerNames = before ++ name :: after → Finds lookup before s texts s₁ →
      (lookup name).run.run s₁ = (.error e, s') →
      Renders lookup t s (.error e) s' (before ++ [name])

theorem exists_renders (lookup : String → ExceptT ε (StateM σ) String) (t : Template) (s : σ)
    (asked : List String) :
    ∃ result s' names, Renders lookup t s result s' names ∧
      (t.render (recording lookup)).run.run (s, asked) = (result, s', asked ++ names) := by
  induction t generalizing s asked with
  | nil =>
      refine ⟨_, s, [], .found .nil, ?_⟩
      rw [List.append_nil]
      rfl
  | cons segment t ih =>
      cases segment with
      | text cs =>
          obtain ⟨result, s', names, hrenders, hrun⟩ := ih s asked
          rw [render]
          cases hrenders with
          | found hfinds => exact ⟨_, s', _, .found hfinds, run_bind_of_ok hrun _⟩
          | failed hnames hfinds hfails =>
              exact ⟨_, s', _, .failed hnames hfinds hfails, run_bind_of_error hrun _⟩
      | marker name =>
          rw [render]
          rcases hfound : (lookup (String.ofList name)).run.run s with ⟨found, s₁⟩
          have hasked := run_recording hfound asked
          cases found with
          | error e => exact ⟨_, s₁, _, .failed rfl .nil hfound, run_bind_of_error hasked _⟩
          | ok text =>
              have hrest := run_bind_of_ok hasked fun found => do
                return found ++ (← render (recording lookup) t)
              obtain ⟨result, s', names, hrenders, hrun⟩ := ih s₁ (asked ++ [String.ofList name])
              rw [List.append_assoc] at hrun
              cases hrenders with
              | found hfinds =>
                  refine ⟨_, s', _, .found (.cons hfound hfinds), ?_⟩
                  rw [hrest, run_bind_of_ok hrun]
                  rfl
              | @failed before after _ other _ _ _ hnames hfinds hfails =>
                  have hall : markerNames (.marker name :: t) =
                      (String.ofList name :: before) ++ other :: after := by
                    rw [markerNames_marker, hnames, List.cons_append]
                  refine ⟨_, s', _, .failed hall (.cons hfound hfinds) hfails, ?_⟩
                  rw [hrest, run_bind_of_error hrun]
                  rfl

end Recording

end Template

/-- Every template divides in one way into markers, found from the left, and plain segments, and so
it is read. Rendering asks for the names of the markers in order, in any monad; a lookup that may
fail and change a state is asked for no name behind the first at which it fails. What is found
stands in the place of the markers and is not searched for others. If every name stands for its own
marker, the template comes out as it was. Plain segments come out as they are, and with them what
begins like a marker and is none. -/
theorem template_divides_and_renders (text : String) :
    (∀ t, Template.Divides t text.toList ↔ t = Template.ofString text) ∧
    (∀ (m : Type → Type) [Monad m] [LawfulMonad m] (lookup : String → m String),
      (Template.ofString text).render lookup =
        (Template.ofString text).weave <$> (Template.ofString text).markerNames.mapM lookup) ∧
    (∀ (σ ε : Type) (lookup : String → ExceptT ε (StateM σ) String) (s : σ),
      ∃ result s' names, Template.Renders lookup (Template.ofString text) s result s' names ∧
        ((Template.ofString text).render (Template.recording lookup)).run.run (s, []) =
          (result, s', names)) ∧
    (∀ (m : Type → Type) [Monad m] [LawfulMonad m],
      (Template.ofString text).render (fun name => (pure ("$(" ++ name ++ ")") : m String)) =
        pure text) ∧
    (∀ (t₁ t₂ : Template) (cs : List Char), Template.ofString text = t₁ ++ .text cs :: t₂ →
      ∀ texts, (Template.ofString text).weave texts =
        t₁.weave (texts.take t₁.markerNames.length) ++ (String.ofList cs ++
          t₂.weave (texts.drop t₁.markerNames.length))) ∧
    ∀ before after, text.toList = before ++ '$' :: '(' :: after → Template.IsMalformed after →
      (Template.ofString text).KeepsOpening before after := by
  have hdivides := Template.divides_readFrom text.toList
  refine ⟨fun t => ⟨fun h => h.readFrom_eq.symm, fun h => h ▸ hdivides⟩, ?_, ?_, ?_, ?_, ?_⟩
  · exact fun m _ _ lookup => Template.render_eq_map_mapM lookup _
  · exact fun σ ε lookup s => Template.exists_renders lookup _ s []
  · intro m _ _
    have hpure : (Template.ofString text).markerNames.mapM
        (fun name => (pure ("$(" ++ name ++ ")") : m String)) = pure _ := List.mapM_pure
    rw [Template.render_eq_map_mapM, hpure, map_pure, Template.weave_markers]
    have hwritten : (Template.ofString text).written = text.toList := hdivides.written_eq
    rw [hwritten, String.ofList_toList]
  · intro t₁ t₂ cs htext texts
    rw [htext, Template.weave_append]
    rfl
  · exact fun before after htext hmalformed => hdivides.keepsOpening htext hmalformed

/-- Numbers in a marker, a second marker inside one, and one that is not closed. -/
example : Template.ofString "f($(0), $(id), $(, $(x(y)), $(a$(b))" =
    [.text "f($(0), ".toList, .marker "id".toList, .text ", $(, $(x(y)), $(a".toList,
      .marker "b".toList, .text ")".toList] := by decide

end KernelWeaver.Code
