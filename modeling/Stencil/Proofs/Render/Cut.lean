import Stencil.Proofs.Render.Failure

set_option autoImplicit false

namespace Stencil

section

variable {p : Fault → Prop}

def UnlessFault {α : Type} (p : Fault → Prop) (x y : Except Fault α) : Prop :=
  y = x ∨ ∃ f, p f ∧ x = .error f

namespace UnlessFault

variable {α β : Type} {x y : Except Fault α}

theorem refl (x : Except Fault α) : UnlessFault p x x := .inl rfl

theorem bind {f g : α → Except Fault β} (h : UnlessFault p x y)
    (hf : ∀ a, UnlessFault p (f a) (g a)) : UnlessFault p (x >>= f) (y >>= g) := by
  rcases h with rfl | ⟨e, he, rfl⟩
  · cases y with
    | ok a => exact hf a
    | error e => exact refl _
  · exact .inr ⟨e, he, rfl⟩

theorem map (f : α → β) (h : UnlessFault p x y) : UnlessFault p (x.map f) (y.map f) := by
  rcases h with rfl | ⟨e, he, rfl⟩
  · exact refl _
  · exact .inr ⟨e, he, rfl⟩

end UnlessFault

namespace Echo

variable {context : Context} {lookup lookup' : String → Except Fault Value}

theorem step_unlessFault (h : ∀ name, UnlessFault p (lookup name) (lookup' name))
    (stack : List Value) (e : Element) :
    UnlessFault p (step context lookup stack e) (step context lookup' stack e) := by
  cases e with
  | «variable» name => exact (h name).map _
  | _ => exact .refl _

theorem value_unlessFault (h : ∀ name, UnlessFault p (lookup name) (lookup' name))
    (es : List Element) :
    UnlessFault p (value context lookup es) (value context lookup' es) := by
  have hf : ∀ stack, UnlessFault p (es.foldlM (step context lookup) stack)
      (es.foldlM (step context lookup') stack) := by
    induction es with
    | nil => exact fun _ => .refl _
    | cons e es ih =>
      intro stack
      simp only [List.foldlM_cons]
      exact (step_unlessFault h stack e).bind ih
  exact (hf []).bind fun _ => .refl _

end Echo

theorem Render.bound_unlessFault {settings settings' : Settings} {scope : Context}
    (h : ∀ name, UnlessFault p (lookup settings scope .empty name)
      (lookup settings' scope .empty name)) (e : Element) :
    UnlessFault p (bound settings scope .empty e) (bound settings' scope .empty e) := by
  by_cases he : ∃ name, e = .variable name
  · obtain ⟨name, rfl⟩ := he
    simp only [bound_variable]
    exact (h name).bind fun _ => .refl _
  · simp only [bound_constant _ scope .empty (not_exists.1 he)]
    exact .refl _

namespace Trace

/-- `u` is `t`, unless a fault of the kind `p` ended `t`; then the writes of `t` are a prefix of
those of `u`. -/
def CutBy (p : Fault → Prop) (t u : Trace) : Prop :=
  u = t ∨ (∃ site f, p f ∧ t.result = .error (.fault site f)) ∧ t.writes <+: u.writes

theorem writes_prefix_andThen (t u : Trace) : t.writes <+: (t.andThen u).writes := by
  cases h : t.result with
  | ok _ => simp [andThen_of_ok h]
  | error e => simp [andThen_of_error h]

theorem exists_iterate (header : Header) (limit : Nat) (stop step : Value) (body : Value → Trace)
    (left : Nat) (v : Value) :
    ∃ next, iterate header limit stop step body left v =
      ofSite (.loop header) (Render.isPast v stop) fun past => if past then done else next := by
  cases left with
  | zero => exact ⟨_, rfl⟩
  | succ left => exact ⟨_, rfl⟩

namespace CutBy

variable {t t' u u' : Trace}

theorem refl (t : Trace) : t.CutBy p t := .inl rfl

theorem fault {f : Fault} (h : p f) (site : Site) (u : Trace) :
    (fail (.fault site f)).CutBy p u :=
  .inr ⟨⟨site, f, h, rfl⟩, List.nil_prefix⟩

theorem andThen (h : t.CutBy p t') (hu : u.CutBy p u') :
    (t.andThen u).CutBy p (t'.andThen u') := by
  rcases h with rfl | ⟨⟨site, f, hf, ht⟩, hw⟩
  · cases ht : t'.result with
    | ok _ =>
      rw [andThen_of_ok ht, andThen_of_ok ht]
      rcases hu with rfl | ⟨hl, hw⟩
      · exact refl _
      · exact .inr ⟨hl, (List.prefix_append_right_inj _).2 hw⟩
    | error e =>
      rw [andThen_of_error ht, andThen_of_error ht]
      exact refl _
  · rw [andThen_of_error ht]
    exact .inr ⟨⟨site, f, hf, ht⟩, hw.trans (writes_prefix_andThen t' u')⟩

theorem ofSite {α : Type} {site : Site} {x y : Except Fault α} {f g : α → Trace}
    (hx : UnlessFault p x y) (h : ∀ a, (f a).CutBy p (g a)) :
    (Trace.ofSite site x f).CutBy p (Trace.ofSite site y g) := by
  rcases hx with rfl | ⟨e, he, rfl⟩
  · cases y with
    | ok a => exact h a
    | error e => exact refl _
  · exact fault he site _

theorem iterate {header : Header} {limit limit' : Nat} {stop step : Value}
    {body body' : Value → Trace} (hbody : ∀ v, (body v).CutBy p (body' v)) {left left' : Nat}
    (h : left = left' ∧ limit = limit' ∨ left ≤ left' ∧ p (.iterationLimit limit)) (v : Value) :
    (Trace.iterate header limit stop step body left v).CutBy p
      (Trace.iterate header limit' stop step body' left' v) := by
  -- The rounds are counted down together, and the loop that is cut has no more of them.
  induction left generalizing left' v with
  | zero =>
    rcases h with ⟨rfl, rfl⟩ | ⟨-, hp⟩
    · exact refl _
    · obtain ⟨next, hn⟩ := exists_iterate header limit' stop step body' left' v
      rw [hn]
      refine ofSite (.refl _) fun past => ?_
      cases past with
      | true => exact refl _
      | false => exact fault hp _ _
  | succ left ih =>
    have hle : left + 1 ≤ left' := h.elim (fun h => Nat.le_of_eq h.1) And.left
    obtain ⟨left', rfl⟩ := Nat.exists_eq_add_of_le' (Nat.le_trans (Nat.le_add_left 1 left) hle)
    refine ofSite (.refl _) fun past => ?_
    cases past with
    | true => exact refl _
    | false =>
      refine (hbody v).andThen (ofSite (.refl _) fun next => ?_)
      cases next with
      | none => exact refl _
      | some w =>
        exact ih (h.imp (And.imp_left Nat.succ.inj) (And.imp_left Nat.le_of_succ_le_succ)) w

theorem play_eq {σ : Type} [Sink σ] (h : t.CutBy p u) (sink : σ)
    (hp : ∀ site f, p f → (t.play sink).1 ≠ .error (.fault site f)) :
    u.play sink = t.play sink := by
  obtain ⟨ws, r⟩ := t
  rcases h with rfl | ⟨⟨site, f, hf, rfl⟩, vs, hv⟩
  · rfl
  · obtain ⟨us, s⟩ := u
    subst hv
    -- Both play `ws` first. Had the sink taken all of it, `t` would end with its own fault.
    have ht := playAll_append (.error (.fault site f)) ws [] sink
    have hu := playAll_append s ws vs sink
    rw [List.append_nil] at ht
    have hne := hp site f hf
    simp only [play] at hne ⊢
    cases hw : playAll (.ok ()) ws sink with
    | mk r' sink' =>
      cases r' with
      | ok _ =>
        rw [ht, hw] at hne
        exact absurd rfl hne
      | error e => rw [ht, hu, hw]

theorem writes_prefix (h : t.CutBy p u) : t.writes <+: u.writes := by
  rcases h with rfl | ⟨-, hw⟩
  · exact List.prefix_rfl
  · exact hw

end CutBy

end Trace

namespace Node

open Trace

variable {settings settings' : Settings}

mutual

theorem trace_cutBy
    (hl : ∀ scope name, UnlessFault p (Render.lookup settings scope .empty name)
      (Render.lookup settings' scope .empty name))
    (hm : settings.maxIterations = settings'.maxIterations ∨
      settings.maxIterations ≤ settings'.maxIterations ∧
        p (.iterationLimit settings.maxIterations)) (context : Context) :
    ∀ (n : Node) (scope : Context),
      (n.trace settings context scope).CutBy p (n.trace settings' context scope)
  | .document children, scope => traceAll_cutBy hl hm context children scope
  | .text s, _ => .refl (.write s)
  | .loop _ body, scope =>
    .ofSite (Render.bound_unlessFault (hl scope) _) fun start =>
      .ofSite (Render.bound_unlessFault (hl scope) _) fun _ =>
        .ofSite (Render.bound_unlessFault (hl scope) _) fun _ =>
          .iterate (fun _ => traceAll_cutBy hl hm context body _)
            (hm.imp_left fun h => ⟨h, h⟩) start
  | .echo es, scope => .ofSite (Echo.value_unlessFault (hl scope) es) fun v => .refl (.write v.text)

theorem traceAll_cutBy
    (hl : ∀ scope name, UnlessFault p (Render.lookup settings scope .empty name)
      (Render.lookup settings' scope .empty name))
    (hm : settings.maxIterations = settings'.maxIterations ∨
      settings.maxIterations ≤ settings'.maxIterations ∧
        p (.iterationLimit settings.maxIterations)) (context : Context) :
    ∀ (ns : List Node) (scope : Context),
      (traceAll settings context scope ns).CutBy p (traceAll settings' context scope ns)
  | [], _ => .refl .done
  | n :: ns, scope =>
    (trace_cutBy hl hm context n scope).andThen (traceAll_cutBy hl hm context ns scope)

end

end Node

end

/-- Some loop had more values than the limit allows. -/
def PastLimit (r : Except RenderError Unit) : Prop :=
  ∃ site limit, r = .error (.fault site (.iterationLimit limit))

def IsLimit (f : Fault) : Prop := ∃ limit, f = .iterationLimit limit

namespace Trace

/-- A higher limit only goes on where the lower one has ended the render. -/
def UpTo (t u : Trace) : Prop := u = t ∨ PastLimit t.result ∧ t.writes <+: u.writes

theorem upTo_iff_cutBy {t u : Trace} : t.UpTo u ↔ t.CutBy IsLimit u := by
  constructor
  · rintro (h | ⟨⟨site, limit, hr⟩, hw⟩)
    · exact .inl h
    · exact .inr ⟨⟨site, _, ⟨limit, rfl⟩, hr⟩, hw⟩
  · rintro (h | ⟨⟨site, _, ⟨limit, rfl⟩, hr⟩, hw⟩)
    · exact .inl h
    · exact .inr ⟨⟨site, limit, hr⟩, hw⟩

theorem UpTo.play_eq {t u : Trace} {σ : Type} [Sink σ] (h : t.UpTo u) (sink : σ)
    (hl : ¬PastLimit (t.play sink).1) : u.play sink = t.play sink := by
  refine (upTo_iff_cutBy.1 h).play_eq sink ?_
  rintro site _ ⟨limit, rfl⟩ hr
  exact hl ⟨site, limit, hr⟩

end Trace

theorem Render.lookup_of_strict {settings settings' : Settings}
    (h : settings.strict = settings'.strict) : lookup settings = lookup settings' := by
  funext context counters name
  simp only [lookup, h]

theorem Node.trace_upTo {settings settings' : Settings} (hs : settings.strict = settings'.strict)
    (hm : settings.maxIterations ≤ settings'.maxIterations) (context : Context) (n : Node)
    (scope : Context) :
    (n.trace settings context scope).UpTo (n.trace settings' context scope) := by
  refine Trace.upTo_iff_cutBy.2 (trace_cutBy (fun scope name => ?_) (.inr ⟨hm, _, rfl⟩) ..)
  rw [Render.lookup_of_strict hs]
  exact .refl _

/-- Under a higher limit a render begins with the writes that it makes under a lower one; unless it
was the lower limit that ended it, it is the same render in every sink. -/
theorem renderInto_of_limit_le {limit limit' : Nat} (h : limit ≤ limit') (strict : Bool)
    (context : Context) (n : Node) :
    (n.renderInto ⟨limit, strict⟩ context (#[] : Array String)).2.toList <+:
        (n.renderInto ⟨limit', strict⟩ context (#[] : Array String)).2.toList ∧
      ∀ {σ : Type} [Sink σ] (sink : σ),
        ¬PastLimit (n.renderInto ⟨limit, strict⟩ context sink).1 →
          n.renderInto ⟨limit', strict⟩ context sink =
            n.renderInto ⟨limit, strict⟩ context sink := by
  have hs : (Settings.mk limit strict).strict = (Settings.mk limit' strict).strict := rfl
  have hu := Node.trace_upTo hs h context n context
  simp only [Node.renderInto_eq_play]
  refine ⟨?_, fun sink hl => hu.play_eq sink hl⟩
  simp only [Trace.play_array]
  rcases hu with he | ⟨-, hw⟩
  · simp [he]
  · simpa using hw

def twoRounds : Node :=
  .loop ⟨"i", .number (.int 1), .number (.int 2), none⟩ [.text "i", .echo [.variable "i"]]

theorem renderInto_twoRounds :
    1 ≤ 2 ∧
      (twoRounds.renderInto ⟨1, true⟩ (fun _ => none) (#[] : Array String)).2.toList <+:
        (twoRounds.renderInto ⟨2, true⟩ (fun _ => none) (#[] : Array String)).2.toList ∧
      ¬PastLimit (twoRounds.renderInto ⟨1, true⟩ (fun _ => none) (Limited.mk 1 #[])).1 ∧
      twoRounds.renderInto ⟨2, true⟩ (fun _ => none) (Limited.mk 1 #[]) =
        twoRounds.renderInto ⟨1, true⟩ (fun _ => none) (Limited.mk 1 #[]) := by
  have h := renderInto_of_limit_le (show 1 ≤ 2 by decide) true (fun _ => none) twoRounds
  have hr : (twoRounds.renderInto ⟨1, true⟩ (fun _ => none) (Limited.mk 1 #[])).1 =
      .error (.write "sink full") := rfl
  have hl : ¬PastLimit (twoRounds.renderInto ⟨1, true⟩ (fun _ => none) (Limited.mk 1 #[])).1 := by
    rintro ⟨site, limit, hp⟩
    rw [hr] at hp
    cases hp
  exact ⟨by decide, h.1, hl, h.2 _ hl⟩

/-- A variable was looked for that is unbound. -/
def FindsUnknown (r : Except RenderError Unit) : Prop :=
  ∃ site name, r = .error (.fault site (.unknownVariable name))

def IsUnknown (f : Fault) : Prop := ∃ name, f = .unknownVariable name

namespace Render

theorem lookup_strict (limit : Nat) (scope : Context) (name : String) :
    UnlessFault IsUnknown (lookup ⟨limit, true⟩ scope .empty name)
      (lookup ⟨limit, false⟩ scope .empty name) := by
  cases h : lookup ⟨limit, true⟩ scope .empty name with
  | error f =>
    obtain ⟨rfl, -⟩ := lookup_eq_error h
    exact .inr ⟨_, ⟨name, rfl⟩, rfl⟩
  | ok v =>
    left
    rw [← h]
    simp only [lookup, Stacks.top, Stacks.stack_empty] at h ⊢
    cases hs : scope name with
    | some w => rfl
    | none => simp [hs] at h

end Render

namespace Node

theorem trace_strict (limit : Nat) (context : Context) (n : Node) (scope : Context) :
    (n.trace ⟨limit, true⟩ context scope).CutBy IsUnknown
      (n.trace ⟨limit, false⟩ context scope) :=
  trace_cutBy (Render.lookup_strict limit) (.inl rfl) context n scope

theorem unknown_of_renderInto {σ : Type} [Sink σ] {settings : Settings} {context : Context}
    {n : Node} {sink : σ} {site : Site} {name : String}
    (h : (n.renderInto settings context sink).1 = .error (.fault site (.unknownVariable name))) :
    ∃ around, (site, around) ∈ n.tags [] ∧ Unknown settings context site around name := by
  rcases failsAmong_renderInto h with ⟨reason, hr⟩ | ⟨site', around, f, hm, he, hf⟩
  · cases hr
  · cases he
    exact ⟨around, hm, hf name rfl⟩

end Node

open Node in
/-- With strict variables a render makes the writes that it makes without, or the first of them if
it finds a variable unknown: one that stands in the tag at fault, while no loop around that tag
counts with it and the context does not have it. Without strict variables it finds none. -/
theorem renderInto_strict (limit : Nat) (context : Context) (n : Node) :
    (n.renderInto ⟨limit, true⟩ context (#[] : Array String)).2.toList <+:
        (n.renderInto ⟨limit, false⟩ context (#[] : Array String)).2.toList ∧
      ∀ {σ : Type} [Sink σ] (sink : σ),
        (¬FindsUnknown (n.renderInto ⟨limit, true⟩ context sink).1 →
          n.renderInto ⟨limit, false⟩ context sink = n.renderInto ⟨limit, true⟩ context sink) ∧
        (∀ site name, (n.renderInto ⟨limit, true⟩ context sink).1 =
            .error (.fault site (.unknownVariable name)) →
          ∃ around, (site, around) ∈ n.tags [] ∧ .variable name ∈ site.elements ∧
            name ∉ around ∧ context name = none) ∧
        ¬FindsUnknown (n.renderInto ⟨limit, false⟩ context sink).1 := by
  have hc := trace_strict limit context n context
  refine ⟨?_, fun sink => ⟨fun hu => ?_, fun site name h => ?_, fun ⟨site, name, h⟩ => ?_⟩⟩
  · simp only [renderInto_eq_play, Trace.play_array]
    simpa using hc.writes_prefix
  · rw [renderInto_eq_play] at hu ⊢
    rw [renderInto_eq_play]
    refine hc.play_eq sink ?_
    rintro site _ ⟨name, rfl⟩ hr
    exact hu ⟨site, name, hr⟩
  · obtain ⟨around, hm, hn⟩ := unknown_of_renderInto h
    exact ⟨around, hm, hn.mem, hn.uncounted, hn.missing⟩
  · obtain ⟨around, -, hn⟩ := unknown_of_renderInto h
    exact absurd hn.strict (by simp)

def strayed : Node :=
  .document [
    .loop ⟨"x", .number (.int 1), .number (.int 2), none⟩ [.echo [.variable "x"]],
    .echo [.variable "x"], .text "!"]

theorem renderInto_strayed :
    (strayed.renderInto ⟨9, true⟩ (fun _ => none) (#[] : Array String)).1 =
        .error (.fault (.echo [.variable "x"]) (.unknownVariable "x")) ∧
      (∃ around, (Site.echo [.variable "x"], around) ∈ strayed.tags [] ∧ "x" ∉ around) ∧
      strayed.renderInto ⟨9, false⟩ (fun _ => some .null) (Limited.mk 1 #[]) =
        strayed.renderInto ⟨9, true⟩ (fun _ => some .null) (Limited.mk 1 #[]) := by
  have hr : (strayed.renderInto ⟨9, true⟩ (fun _ => none) (#[] : Array String)).1 =
      .error (.fault (.echo [.variable "x"]) (.unknownVariable "x")) := rfl
  obtain ⟨around, hm, -, hx, -⟩ := ((renderInto_strict 9 (fun _ => none) strayed).2 #[]).2.1 _ _ hr
  have hk : (strayed.renderInto ⟨9, true⟩ (fun _ => some .null) (Limited.mk 1 #[])).1 =
      .error (.write "sink full") := rfl
  refine ⟨hr, ⟨around, hm, hx⟩, ((renderInto_strict 9 _ strayed).2 _).1 ?_⟩
  rintro ⟨site, name, h⟩
  rw [hk] at h
  cases h

end Stencil
