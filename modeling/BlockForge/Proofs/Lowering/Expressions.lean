import BlockForge.Lowering.Expr
import BlockForge.Proofs.Lowering.Operators

/-!
# Lowering expressions

Every expression lowers well from every live state, whatever is wrong with it: lowering goes on at a
live position, with a value represented like its type or with an error reported.
-/

namespace BlockForge.Lowering

open Ir (Emit ValueId)
open Source (Expr Span TypeExpr)
open StateM
open BlockForge.Types (LitKind Ty)

/-! ### Vectors -/

section Vectors

variable {env : Env} {s : State}

theorem vectorShape_runs (h : s.Live env) (elem : Ty) :
    (vectorShape env elem).Runs s fun shape s' =>
      shape.Fits s'.builder (env.ir .usize) ∧ shape.elem = env.ir elem :=
  ⟨.refl h.live, ⟨h.fits.ptrInt, by rw [← h.fits.ptrInt]; exact h.fits.vector,
    Env.isScalar_ir elem, h.fits.allocator⟩, rfl⟩

theorem lowerVectorNew_runs (h : s.Live env) (elem : TypeExpr) (span : Span) :
    (lowerVectorNew env elem span).Runs s (Typed.Fits env) := by
  refine Attempt.Runs.bind (resolve_runs h elem span) fun t s₁ o₁ _ => ?_
  refine Attempt.Runs.bind (Attempt.lift_runs (vectorShape_runs (h.onward o₁) t))
    fun shape s₂ o₂ hs => ?_
  refine Attempt.get_bind ?_
  refine Attempt.Runs.bind (Attempt.emit_runs (VectorShape.new_gives o₂.builder.live hs.1 _ _))
    fun desc s₃ o₃ hd => ?_
  exact Attempt.Runs.pure o₃.builder.live hd

theorem lowerIndex_runs (h : s.Live env) {o : Operand} (ho : o.Ok env) :
    (lowerIndex o).Runs s fun v s' => s'.builder.function.Has v (env.ir .usize) := by
  refine Attempt.Runs.bind (ho _ h) fun v s₁ o₁ hv => ?_
  have h₁ := h.onward o₁
  split
  · rename_i hi
    refine Attempt.get_bind ?_
    rw [h₁.fits.ptrInt]
    exact Attempt.emit_runs (Emit.intResize_onward h₁.live hv (Env.isInt_of_isInteger hi)
      (Env.isInt_of_isInteger rfl))
  · exact Attempt.reject_runs h₁.live rfl

theorem lowerElement_runs (h : s.Live env) {o : Operand} (ho : o.Ok env) (elem : Ty)
    (context : String) :
    (lowerElement o elem context).Runs s fun v s' => s'.builder.function.Has v (env.ir elem) := by
  refine Attempt.Runs.bind (lowerAs_runs ho h elem context) fun v s₁ o₁ hv => ?_
  exact Attempt.Runs.pure o₁.builder.live (hv.1 ▸ hv.2)

theorem lowerIndexAndElement_runs (h : s.Live env) {index value : Operand} (hi : index.Ok env)
    (hv : value.Ok env) (elem : Ty) (context : String) :
    (lowerIndexAndElement index value elem context).Runs s fun p s' =>
      s'.builder.function.Has p.1 (env.ir .usize) ∧ s'.builder.function.Has p.2 (env.ir elem) := by
  refine Attempt.Runs.bind (Attempt.lift_runs (lowerIndex_runs h hi).run) fun i s₁ o₁ hi₁ => ?_
  have h₁ := h.onward o₁
  refine Attempt.Runs.bind (Attempt.lift_runs (lowerElement_runs h₁ hv elem context).run)
    fun v s₂ o₂ hv₂ => ?_
  cases i with
  | none => exact Attempt.fail_runs o₂.builder.live (o₂.failed hi₁)
  | some i =>
    cases v with
    | none => exact Attempt.fail_runs o₂.builder.live hv₂
    | some v => exact Attempt.Runs.pure o₂.builder.live ⟨o₂.has hi₁, hv₂⟩

theorem lowerVectorOp_runs (h : s.Live env) (op : VectorOp) {desc : ValueId}
    (hd : s.builder.function.Has desc .ptr) (elem : Ty) {args : List Operand}
    (hargs : ∀ o ∈ args, o.Ok env) (hlen : args.length = op.arity) :
    (lowerVectorOp env op desc elem args).Runs s (Typed.Fits env) := by
  refine Attempt.Runs.bind (Attempt.lift_runs (vectorShape_runs h elem)) fun shape s₁ o₁ hs => ?_
  obtain ⟨hshape, helem⟩ := hs
  have h₁ := h.onward o₁
  have hd₁ := o₁.has hd
  have along : ∀ {s₂ : State}, State.Onward s₁ s₂ → shape.Fits s₂.builder (env.ir .usize) :=
    fun o => hshape.onward o.builder
  cases op with
  | size =>
    refine Attempt.Runs.bind (Attempt.emit_runs
      (VectorShape.loadField_gives h₁.live hshape hd₁ .size _)) fun v s₂ o₂ hv => ?_
    exact Attempt.Runs.pure o₂.builder.live hv
  | capacity =>
    refine Attempt.Runs.bind (Attempt.emit_runs
      (VectorShape.loadField_gives h₁.live hshape hd₁ .capacity _)) fun v s₂ o₂ hv => ?_
    exact Attempt.Runs.pure o₂.builder.live hv
  | get =>
    obtain ⟨index, rfl⟩ := List.length_eq_one_iff.1 hlen
    refine Attempt.Runs.bind (lowerIndex_runs h₁ (hargs index (by simp))) fun i s₂ o₂ hi => ?_
    refine Attempt.Runs.bind (Attempt.emit_runs
      (VectorShape.getAt_gives o₂.builder.live (along o₂) (o₂.has hd₁) hi)) fun v s₃ o₃ hv => ?_
    exact Attempt.Runs.pure o₃.builder.live (by rw [Typed.Fits, ← helem]; exact hv)
  | set =>
    obtain ⟨index, value, rfl⟩ := List.length_eq_two.1 hlen
    refine Attempt.Runs.bind (lowerIndexAndElement_runs h₁ (hargs index (by simp))
      (hargs value (by simp)) elem _) fun p s₂ o₂ hp => ?_
    refine Attempt.Runs.bind (Attempt.emit_runs (VectorShape.setAt_goes o₂.builder.live (along o₂)
      (o₂.has hd₁) hp.1 hp.2)) fun _ s₃ o₃ _ => ?_
    exact Attempt.lift_runs (unit_runs ((h₁.onward o₂).onward o₃))
  | add =>
    obtain ⟨value, rfl⟩ := List.length_eq_one_iff.1 hlen
    refine Attempt.Runs.bind (lowerElement_runs h₁ (hargs value (by simp)) elem _)
      fun v s₂ o₂ hv => ?_
    refine Attempt.Runs.bind (Attempt.emit_runs (VectorShape.append_goes o₂.builder.live (along o₂)
      (o₂.has hd₁) hv)) fun _ s₃ o₃ _ => ?_
    exact Attempt.lift_runs (unit_runs ((h₁.onward o₂).onward o₃))
  | insert =>
    obtain ⟨index, value, rfl⟩ := List.length_eq_two.1 hlen
    refine Attempt.Runs.bind (lowerIndexAndElement_runs h₁ (hargs index (by simp))
      (hargs value (by simp)) elem _) fun p s₂ o₂ hp => ?_
    refine Attempt.Runs.bind (Attempt.emit_runs (VectorShape.insertAt_goes o₂.builder.live
      (along o₂) (o₂.has hd₁) hp.1 hp.2)) fun _ s₃ o₃ _ => ?_
    exact Attempt.lift_runs (unit_runs ((h₁.onward o₂).onward o₃))
  | remove =>
    obtain ⟨index, rfl⟩ := List.length_eq_one_iff.1 hlen
    refine Attempt.Runs.bind (lowerIndex_runs h₁ (hargs index (by simp))) fun i s₂ o₂ hi => ?_
    refine Attempt.Runs.bind (Attempt.emit_runs
      (VectorShape.removeAt_gives o₂.builder.live (along o₂) (o₂.has hd₁) hi))
      fun v s₃ o₃ hv => ?_
    exact Attempt.Runs.pure o₃.builder.live (by rw [Typed.Fits, ← helem]; exact hv)

/-- Reports a problem, lowers what is left for its diagnostics, and fails. -/
theorem reject_after_visit {α : Type} {P : α → State → Prop} (h : s.Live env)
    {d : Diagnostic.Diag} (hd : d.isError = true) {os : List Operand}
    (hos : ∀ o ∈ os, o.Ok env) :
    (do
      Lower.report d
      visitAll os
      Attempt.fail : Attempt α).Runs s P := by
  refine Attempt.Runs.bind (Attempt.lift_runs (Lower.report_runs h.live hd)) fun _ s₁ o₁ hf => ?_
  refine Attempt.Runs.bind (Attempt.lift_runs (visitAll_goes hos (h.onward o₁)))
    fun _ s₂ o₂ _ => ?_
  exact Attempt.fail_runs o₂.builder.live (o₂.failed hf)

theorem lowerVectorMethod_runs (h : s.Live env) {recv : Typed} {elem : Ty}
    (hr : s.builder.function.Has recv.value .ptr) (method : String) {args : List Operand}
    (hargs : ∀ o ∈ args, o.Ok env) (span : Span) :
    (lowerVectorMethod env recv elem method args span).Runs s (Typed.Fits env) := by
  unfold lowerVectorMethod
  split
  · exact reject_after_visit h rfl hargs
  · split
    · exact reject_after_visit h rfl hargs
    · rename_i hlen
      exact lowerVectorOp_runs h _ hr elem hargs (by simpa using hlen)

theorem lowerIndexing_runs (h : s.Live env) {receiver index : Operand} (hr : receiver.Ok env)
    (hi : index.Ok env) (span : Span) :
    (lowerIndexing env receiver index span).Runs s (Typed.Fits env) := by
  refine Attempt.Runs.bind (Attempt.lift_runs (hr none h).run) fun r s₁ o₁ hr₁ => ?_
  have h₁ := h.onward o₁
  cases r with
  | none =>
    refine Attempt.Runs.bind (Attempt.lift_runs (visit_goes hi h₁)) fun _ s₂ o₂ _ => ?_
    exact Attempt.fail_runs o₂.builder.live (o₂.failed hr₁)
  | some recv =>
    dsimp only
    split
    · refine Attempt.Runs.bind (Attempt.lift_runs (Lower.report_runs h₁.live rfl))
        fun _ s₂ o₂ hf => ?_
      refine Attempt.Runs.bind (Attempt.lift_runs (visit_goes hi (h₁.onward o₂)))
        fun _ s₃ o₃ _ => ?_
      exact Attempt.fail_runs o₃.builder.live (o₃.failed hf)
    · rename_i elem helem
      have hrecv : s₁.builder.function.Has recv.value .ptr := by
        have : s₁.builder.function.Has recv.value (env.ir recv.ty) := hr₁
        cases ht : recv.ty <;> simp [ht, Ty.element?] at helem
        rw [ht] at this
        exact this
      refine Attempt.Runs.bind (lowerIndex_runs h₁ hi) fun i s₂ o₂ hi₂ => ?_
      refine Attempt.Runs.bind (Attempt.lift_runs (vectorShape_runs (h₁.onward o₂) elem))
        fun shape s₃ o₃ hs => ?_
      refine Attempt.Runs.bind (Attempt.emit_runs (VectorShape.getAt_gives o₃.builder.live hs.1
        (o₃.has (o₂.has hrecv)) (o₃.has hi₂))) fun v s₄ o₄ hv => ?_
      exact Attempt.Runs.pure o₄.builder.live (by rw [Typed.Fits, ← hs.2]; exact hv)

theorem lowerIndexAssign_runs (h : s.Live env) {receiver index value : Operand}
    (hr : receiver.Ok env) (hi : index.Ok env) (hv : value.Ok env) (span : Span) :
    (lowerIndexAssign env receiver index value span).Runs s fun _ _ => True := by
  have hboth : ∀ o ∈ [index, value], o.Ok env := by
    intro o ho
    rcases (by simpa using ho : o = index ∨ o = value) with rfl | rfl
    · exact hi
    · exact hv
  refine Attempt.Runs.bind (Attempt.lift_runs (hr none h).run) fun r s₁ o₁ hr₁ => ?_
  have h₁ := h.onward o₁
  cases r with
  | none =>
    refine Attempt.Runs.bind (Attempt.lift_runs (visitAll_goes hboth h₁)) fun _ s₂ o₂ _ => ?_
    exact Attempt.fail_runs o₂.builder.live (o₂.failed hr₁)
  | some recv =>
    dsimp only
    split
    · exact reject_after_visit h₁ rfl hboth
    · rename_i elem helem
      have hrecv : s₁.builder.function.Has recv.value .ptr := by
        have : s₁.builder.function.Has recv.value (env.ir recv.ty) := hr₁
        cases ht : recv.ty <;> simp [ht, Ty.element?] at helem
        rw [ht] at this
        exact this
      refine Attempt.Runs.bind (lowerIndexAndElement_runs h₁ hi hv elem _) fun p s₂ o₂ hp => ?_
      refine Attempt.Runs.bind (Attempt.lift_runs (vectorShape_runs (h₁.onward o₂) elem))
        fun shape s₃ o₃ hs => ?_
      exact Attempt.emit_goes (VectorShape.setAt_goes o₃.builder.live hs.1
        (o₃.has (o₂.has hrecv)) (o₃.has hp.1) (o₃.has hp.2))

end Vectors

/-! ### Calls -/

section Calls

variable {env : Env} {s : State}

theorem lowerArgs_runs (h : s.Live env) (callee : String) (position : Nat)
    {args : List (Operand × Ty)} (hargs : ∀ p ∈ args, p.1.Ok env) :
    (lowerArgs callee position args).Runs s (Attempt.Post fun vs s' =>
      List.Forall₂ s'.builder.function.Has vs (args.map fun p => env.ir p.2)) := by
  induction args generalizing s position with
  | nil => exact Lower.Runs.pure h.live .nil
  | cons p rest ih =>
    obtain ⟨arg, param⟩ := p
    have harg : arg.Ok env := hargs (arg, param) (by simp)
    refine Lower.Runs.bind (lowerAs_runs harg h param _).run fun v s₁ o₁ hv => ?_
    refine Lower.Runs.bind (ih (h.onward o₁) _ fun q hq => hargs q (by simp [hq]))
      fun vs s₂ o₂ hvs => ?_
    refine Lower.Runs.pure o₂.builder.live ?_
    cases v with
    | none => exact o₂.failed hv
    | some v =>
      cases vs with
      | none => exact hvs
      | some vs =>
        have hv₂ : s₂.builder.function.Has v.value (env.ir v.ty) := o₂.has hv.2
        rw [hv.1] at hv₂
        exact .cons hv₂ hvs

theorem emitCall_runs (h : s.Live env) {symbol : String} {sig : Signature}
    (hsig : env.tables.function? symbol = some sig) (name : String) {args : List ValueId}
    (hargs : List.Forall₂ s.builder.function.Has args
      ((sig.receiver.toList ++ sig.params).map env.ir)) :
    (emitCall sig name args).Runs s (Typed.Fits env) := by
  obtain ⟨f, hf, hparams, hret⟩ := h.fits.functions hsig
  have hscalar : f.ret = .void ∨ f.ret.isScalar = true := by
    rw [hret, Types.Layout.returnIrType]
    split
    · exact .inl rfl
    · exact .inr (Env.isScalar_ir sig.ret)
  refine Lower.Runs.bind (Lower.emit_runs (Emit.call_onward h.live hf (hparams ▸ hargs) hscalar))
    fun r s₁ o₁ hr => ?_
  rcases hr with ⟨-, rfl⟩ | ⟨v, rfl, hv⟩
  · exact unit_runs (h.onward o₁)
  · refine Lower.Runs.pure o₁.builder.live ?_
    have hne : sig.ret.isUnit = false := by
      cases hu : sig.ret.isUnit with
      | false => rfl
      | true =>
        have := hv.scalar
        simp [hret, Types.Layout.returnIrType, hu, Ir.Ty.isScalar, Ir.Ty.isInt, Ir.Ty.intBits?,
          Ir.Ty.isFloat, Ir.Ty.isPtr] at this
    rw [hret, Types.Layout.returnIrType, hne] at hv
    exact hv

theorem abandonCall_runs (h : s.Live env) {d : Option Diagnostic.Diag}
    (hd : ∀ x, d = some x → x.isError = true) (hf : d = none → s.Failed) {args : List Operand}
    (hargs : ∀ o ∈ args, o.Ok env) : (abandonCall d args).Runs s (Typed.Fits env) := by
  cases d with
  | some x => exact reject_after_visit h (hd x rfl) hargs
  | none =>
    refine Attempt.Runs.bind (Attempt.lift_runs (visitAll_goes hargs h)) fun _ s₁ o₁ _ => ?_
    exact Attempt.fail_runs o₁.builder.live (o₁.failed (hf rfl))

theorem lowerCallTo_runs (h : s.Live env) {key : String} {sig : Signature}
    (hsig : env.tables.function? key = some sig) (what name symbol : String)
    {first : List ValueId}
    (hfirst : List.Forall₂ s.builder.function.Has first (sig.receiver.toList.map env.ir))
    {args : List Operand} (hargs : ∀ o ∈ args, o.Ok env) (span : Span) :
    (lowerCallTo sig what name symbol first args span).Runs s (Typed.Fits env) := by
  unfold lowerCallTo
  split
  · refine abandonCall_runs h ?_ (by simp) hargs
    rintro x hx
    cases hx
    rfl
  · rename_i hlen
    have hlen : args.length = sig.params.length := by simpa using hlen
    have hzip : ∀ p ∈ args.zip sig.params, p.1.Ok env :=
      fun p hp => hargs p.1 (List.of_mem_zip hp).1
    refine Attempt.Runs.bind (Attempt.lift_runs (lowerArgs_runs h name 1 hzip))
      fun vs s₁ o₁ hvs => ?_
    cases vs with
    | none => exact Attempt.fail_runs o₁.builder.live hvs
    | some vs =>
      refine Attempt.lift_runs (emitCall_runs (h.onward o₁) hsig symbol ?_)
      rw [List.map_append]
      refine List.rel_append (o₁.builder.ext.grows.hasAll hfirst) ?_
      have hmap : (args.zip sig.params).map (fun p => env.ir p.2) = sig.params.map env.ir := by
        conv_rhs => rw [← List.map_snd_zip (show sig.params.length ≤ args.length from hlen.ge),
          List.map_map]
        rfl
      exact hmap ▸ hvs

theorem lowerCall_runs (h : s.Live env) (callee : String) {args : List Operand}
    (hargs : ∀ o ∈ args, o.Ok env) (span : Span) :
    (lowerCall env callee args span).Runs s (Typed.Fits env) := by
  unfold lowerCall
  split
  · rename_i sig hsig
    obtain ⟨hsig, hrecv⟩ := Option.filter_eq_some_iff.1 hsig
    refine lowerCallTo_runs h hsig _ _ _ ?_ hargs span
    cases hr : sig.receiver with
    | none => exact .nil
    | some t => simp [hr] at hrecv
  · split
    · rename_i hp
      exact abandonCall_runs h (by simp) (fun _ => h.poisoned hp) hargs
    · refine abandonCall_runs h ?_ (by simp) hargs
      rintro x hx
      cases hx
      rfl

theorem lowerMethodCall_runs (h : s.Live env) {receiver : Operand} (hr : receiver.Ok env)
    (method : String) {args : List Operand} (hargs : ∀ o ∈ args, o.Ok env) (span : Span) :
    (lowerMethodCall env receiver method args span).Runs s (Typed.Fits env) := by
  refine Attempt.Runs.bind (Attempt.lift_runs (hr none h).run) fun r s₁ o₁ hr₁ => ?_
  have h₁ := h.onward o₁
  cases r with
  | none => exact abandonCall_runs h₁ (by simp) (fun _ => hr₁) hargs
  | some recv =>
    have hrecv : s₁.builder.function.Has recv.value (env.ir recv.ty) := hr₁
    dsimp only
    split
    · rename_i elem ht
      rw [ht] at hrecv
      exact lowerVectorMethod_runs h₁ hrecv method hargs span
    · unfold lowerUserMethod
      split
      · refine abandonCall_runs h₁ ?_ (by simp) hargs
        rintro x hx
        cases hx
        rfl
      · rename_i symbol hm
        obtain ⟨sig, hsig, ht⟩ := h₁.fits.methods hm
        rw [hsig]
        refine lowerCallTo_runs h₁ hsig _ _ _ ?_ hargs span
        rw [ht]
        exact .cons hrecv .nil

end Calls

/-! ### Records -/

section Records

variable {env : Env} {s : State}

theorem field?_eq_some {info : RecordInfo} {name : String} {position : Nat} {ty : Ty}
    (h : info.field? name = some (position, ty)) :
    ∃ f, info.fields[position]? = some f ∧ f.2 = ty := by
  obtain ⟨i, -, hi⟩ := Option.bind_eq_some_iff.1 h
  obtain ⟨f, hf, he⟩ := Option.map_eq_some_iff.1 hi
  cases he
  exact ⟨f, hf, rfl⟩

theorem lt_structFields (h : env.Fits s.builder.module) {name : String} {info : RecordInfo}
    (hi : env.tables.record? name = some info) {position : Nat} {f : String × Ty}
    (hf : info.fields[position]? = some f) :
    position < (s.builder.module.structFields info.id).length := by
  rw [h.records hi, List.length_map]
  exact (List.getElem?_eq_some_iff.1 hf).1

theorem fieldAddress_runs (h : s.Live env) {receiver : Operand} (hr : receiver.Ok env)
    (name : String) (span : Span) :
    (fieldAddress env receiver name span).Runs s fun p s' =>
      s'.builder.function.Has p.1 .ptr := by
  refine Attempt.Runs.bind (hr none h) fun recv s₁ o₁ hrecv => ?_
  have h₁ := h.onward o₁
  split
  · exact Attempt.reject_runs h₁.live rfl
  · rename_i struct position ty hfield
    obtain ⟨r, info, ht, hinfo, hpos, rfl⟩ : ∃ r info, recv.ty = .record r ∧
        env.tables.record? r = some info ∧ info.field? name = some (position, ty) ∧
        info.id = struct := by
      cases ht : recv.ty <;> simp only [ht, Tables.field?, reduceCtorEq] at hfield
      rename_i r
      obtain ⟨info, hinfo, hrest⟩ := Option.bind_eq_some_iff.1 hfield
      obtain ⟨p, hp, hsome⟩ := Option.bind_eq_some_iff.1 hrest
      cases hsome
      exact ⟨r, info, rfl, hinfo, hp, rfl⟩
    obtain ⟨f, hf, -⟩ := field?_eq_some hpos
    have hptr : s₁.builder.function.Has recv.value .ptr := by
      have : s₁.builder.function.Has recv.value (env.ir recv.ty) := hrecv
      rw [ht] at this
      exact this
    refine Attempt.Runs.bind (Attempt.emit_runs (Emit.fieldPtr_onward h₁.live hptr
      (lt_structFields h₁.fits hinfo hf))) fun a s₂ o₂ ha => ?_
    exact Attempt.Runs.pure o₂.builder.live ha

theorem lowerField_runs (h : s.Live env) {receiver : Operand} (hr : receiver.Ok env)
    (name : String) (span : Span) :
    (lowerField env receiver name span).Runs s (Typed.Fits env) := by
  refine Attempt.Runs.bind (fieldAddress_runs h hr name span) fun p s₁ o₁ hp => ?_
  refine Attempt.Runs.bind (Attempt.emit_runs (Emit.load_onward o₁.builder.live hp
    (Env.isScalar_ir p.2))) fun v s₂ o₂ hv => ?_
  exact Attempt.Runs.pure o₂.builder.live hv

theorem lowerFieldAssign_runs (h : s.Live env) {receiver value : Operand} (hr : receiver.Ok env)
    (hv : value.Ok env) (name : String) (span : Span) :
    (lowerFieldAssign env receiver name value span).Runs s fun _ _ => True := by
  refine Attempt.Runs.bind (Attempt.lift_runs (fieldAddress_runs h hr name span).run)
    fun p s₁ o₁ hp => ?_
  have h₁ := h.onward o₁
  cases p with
  | none => exact Attempt.lift_runs (visit_goes hv h₁)
  | some p =>
    refine Attempt.Runs.bind (lowerAs_runs hv h₁ p.2 _) fun v s₂ o₂ hv₂ => ?_
    exact Attempt.emit_goes (Emit.store_onward o₂.builder.live (.inl ⟨_, hv₂.2⟩) (o₂.has hp))

/-- What the initialisers of a record literal have given so far. -/
structure Initialised.Ok (env : Env) (info : RecordInfo) (acc : Initialised) (s : State) :
    Prop where
  values : ∀ p ∈ acc.values, ∃ f, info.fields[p.1]? = some f ∧
    s.builder.function.Has p.2 (env.ir f.2)
  failed : acc.ok = false → s.Failed

theorem Initialised.Ok.onward {info : RecordInfo} {acc : Initialised} {s' : State}
    (o : State.Onward s s') (h : acc.Ok env info s) : acc.Ok env info s' where
  values p hp := by
    obtain ⟨f, hf, hv⟩ := h.values p hp
    exact ⟨f, hf, o.has hv⟩
  failed hf := o.failed (h.failed hf)

theorem lowerInit_runs (h : s.Live env) (info : RecordInfo) (record : String) {acc : Initialised}
    (hacc : acc.Ok env info s) (name : String) {value : Operand} (hv : value.Ok env) :
    (lowerInit info record acc name value).Runs s (Initialised.Ok env info) := by
  unfold lowerInit
  split
  · refine Lower.Runs.bind (Lower.report_runs h.live rfl) fun _ s₁ o₁ hf => ?_
    refine Lower.Runs.bind (visit_goes hv (h.onward o₁)) fun _ s₂ o₂ _ => ?_
    exact Lower.Runs.pure o₂.builder.live
      ⟨((hacc.onward o₁).onward o₂).values, fun _ => o₂.failed hf⟩
  · rename_i position ty hfield
    split
    · refine Lower.Runs.bind (Lower.report_runs h.live rfl) fun _ s₁ o₁ hf => ?_
      exact Lower.Runs.pure o₁.builder.live ⟨(hacc.onward o₁).values, fun _ => hf⟩
    · refine Lower.Runs.bind (lowerAs_runs hv h ty _).run fun v s₁ o₁ hv₁ => ?_
      have hacc₁ := hacc.onward o₁
      cases v with
      | none => exact Lower.Runs.pure o₁.builder.live ⟨hacc₁.values, fun _ => hv₁⟩
      | some v =>
        obtain ⟨f, hf, rfl⟩ := field?_eq_some hfield
        refine Lower.Runs.pure o₁.builder.live ⟨fun p hp => ?_, hacc₁.failed⟩
        rcases List.mem_cons.1 hp with rfl | hp
        · exact ⟨f, hf, hv₁.1 ▸ hv₁.2⟩
        · exact hacc₁.values p hp

theorem lowerInits_runs (h : s.Live env) (info : RecordInfo) (record : String)
    {acc : Initialised} (hacc : acc.Ok env info s) {inits : List (String × Operand)}
    (hi : ∀ p ∈ inits, p.2.Ok env) :
    (lowerInits info record acc inits).Runs s (Initialised.Ok env info) := by
  induction inits generalizing s acc with
  | nil => exact Lower.Runs.pure h.live hacc
  | cons p rest ih =>
    obtain ⟨name, value⟩ := p
    refine Lower.Runs.bind (lowerInit_runs h info record hacc name (hi (name, value) (by simp)))
      fun acc₁ s₁ o₁ h₁ => ?_
    exact ih (h.onward o₁) h₁ fun q hq => hi q (by simp [hq])

theorem reportMissing_runs (h : s.Live env) (record : String) (span : Span) (seen : List Nat)
    (fields : List (String × Nat)) :
    (reportMissing record span seen fields).Runs s fun _ s' =>
      (fields.all fun f => seen.contains f.2) = false → s'.Failed := by
  induction fields generalizing s with
  | nil => exact Lower.Runs.pure h.live (by simp)
  | cons f rest ih =>
    obtain ⟨name, position⟩ := f
    unfold reportMissing
    cases hseen : seen.contains position with
    | true =>
      simp only [Bool.not_true, Bool.false_eq_true, if_false]
      refine (ih h).imp fun _ s' hs => ?_
      rw [List.all_cons, hseen, Bool.true_and]
      exact hs
    | false =>
      simp only [Bool.not_false, if_true]
      refine Lower.Runs.bind (Lower.report_runs h.live rfl) fun _ s₁ o₁ hf => ?_
      exact ⟨(ih (h.onward o₁)).1, fun _ => (ih (h.onward o₁)).1.failed hf⟩

theorem storeFields_goes {b : Ir.Builder} (h : b.Live) {info : RecordInfo} {object : ValueId}
    (ho : b.function.Has object .ptr) {values : List (Nat × ValueId)}
    (hv : ∀ p ∈ values, p.1 < (b.module.structFields info.id).length ∧
      ∃ t, b.function.Has p.2 t) (fields : List (String × Nat)) :
    (storeFields info object values fields).Goes b := by
  induction fields generalizing b with
  | nil => exact Sat.pure ⟨.refl h, trivial⟩
  | cons f rest ih =>
    obtain ⟨name, position⟩ := f
    unfold storeFields
    have along : ∀ {b' : Ir.Builder}, Emit.Onward b b' →
        ∀ p ∈ values, p.1 < (b'.module.structFields info.id).length ∧
          ∃ t, b'.function.Has p.2 t := by
      intro b' o p hp
      obtain ⟨hlt, t, ht⟩ := hv p hp
      exact ⟨by rw [o.structFields]; exact hlt, t, o.has ht⟩
    split
    · rename_i value hl
      have hmem : (position, value) ∈ values := mem_of_lookup hl
      obtain ⟨hlt, t, ht⟩ := hv _ hmem
      refine Emit.Runs.bind (Emit.fieldPtr_onward h ho hlt) fun a b₁ o₁ ha => ?_
      refine Emit.Runs.bind (Emit.store_onward o₁.live (.inl ⟨t, o₁.has ht⟩) ha)
        fun _ b₂ o₂ _ => ?_
      exact ih o₂.live (o₂.has (o₁.has ho)) (along (o₁.trans o₂))
    · exact ih h ho hv

theorem lowerRecord_runs (h : s.Live env) (record : String) {inits : List (String × Operand)}
    (hi : ∀ p ∈ inits, p.2.Ok env) (span : Span) :
    (lowerRecord env record inits span).Runs s (Typed.Fits env) := by
  unfold lowerRecord
  split
  · exact Attempt.reject_runs h.live rfl
  · rename_i info hinfo
    have hstart : ({} : Initialised).Ok env info s := ⟨by simp, by simp⟩
    refine Attempt.Runs.bind (Attempt.lift_runs (lowerInits_runs h info record hstart hi))
      fun acc s₁ o₁ hacc => ?_
    have h₁ := h.onward o₁
    refine Attempt.Runs.bind (Attempt.lift_runs (reportMissing_runs h₁ record span acc.seen _))
      fun _ s₂ o₂ hmiss => ?_
    have h₂ := h₁.onward o₂
    have hacc₂ := hacc.onward o₂
    split
    · rename_i hcond
      refine Attempt.fail_runs h₂.live ?_
      rcases (by simpa using hcond : acc.ok = false ∨ _) with hf | hf
      · exact hacc₂.failed hf
      · exact hmiss (by simpa using hf)
    · refine Attempt.get_bind ?_
      refine Attempt.Runs.bind (Attempt.emit_runs (Emit.constUsize_onward h₂.live rfl _))
        fun size s₃ o₃ hsize => ?_
      have h₃ := h₂.onward o₃
      refine Attempt.Runs.bind (Attempt.emit_runs (h₃.fits.allocator _ _ h₃.live
        (by rw [o₃.builder.ptrInt]; exact hsize))) fun object s₄ o₄ hobj => ?_
      have h₄ := h₃.onward o₄
      have hacc₄ := (hacc₂.onward o₃).onward o₄
      refine Attempt.Runs.bind (Attempt.emit_goes (storeFields_goes h₄.live hobj ?_ _))
        fun _ s₅ o₅ _ => ?_
      · intro p hp
        obtain ⟨f, hf, hv⟩ := hacc₄.values p hp
        exact ⟨lt_structFields h₄.fits hinfo hf, _, hv⟩
      · exact Attempt.Runs.pure o₅.builder.live (o₅.has hobj)

end Records

/-! ### Variables and conversions -/

section

variable {env : Env} {s : State}

/-- What a name stands for is well-formed. -/
theorem State.Ok.lookup? (h : s.Ok env) {name : String} {b : Binding}
    (hb : s.scope.lookup? name = some b) : s.BindingOk env b := by
  obtain ⟨frame, hframe, hlookup⟩ := List.exists_of_findSome?_eq_some hb
  exact h.scope frame hframe _ (mem_of_lookup hlookup)

theorem lowerIdent_runs (h : s.Live env) (name : String) (span : Span) :
    (lowerIdent env name span).Runs s (Typed.Fits env) := by
  refine Attempt.get_bind ?_
  split
  · rename_i a t hb
    have hslot := h.lookup? hb
    refine Attempt.Runs.bind (Attempt.emit_runs (Emit.load_onward h.live hslot.1
      (Env.isScalar_ir t))) fun v s₁ o₁ hv => ?_
    exact Attempt.Runs.pure o₁.builder.live hv
  · rename_i hb
    exact Attempt.fail_runs h.live (h.lookup? hb)
  · exact Attempt.reject_runs h.live rfl

/-- The representation of an integer type has its width. -/
theorem intBits?_of_intShape? (hw : env.config.pointerBits = 16 ∨ env.config.pointerBits = 32 ∨
      env.config.pointerBits = 64) {t : Ty} {shape : Nat × Bool}
    (h : env.layout.intShape? t = some shape) : (env.ir t).intBits? = some shape.1 := by
  have hint : ∀ w, ((Ir.Ty.int? (env.layout.intBits w)).getD .i64).intBits? =
      some (env.layout.intBits w) := by
    intro w
    have hp : env.layout.intBits .ptr = env.config.pointerBits := rfl
    cases w
    case ptr => rcases hw with h | h | h <;> rw [hp, h] <;> rfl
    all_goals rfl
  cases t <;> simp only [Types.Layout.intShape?, Option.some.injEq, reduceCtorEq] at h <;> subst h
  case char => rfl
  all_goals exact hint _

theorem isInt_of_intShape? (hw : env.config.pointerBits = 16 ∨ env.config.pointerBits = 32 ∨
      env.config.pointerBits = 64) {t : Ty} {shape : Nat × Bool}
    (h : env.layout.intShape? t = some shape) : (env.ir t).isInt = true := by
  simp [Ir.Ty.isInt, intBits?_of_intShape? hw h]

/-- What `as` does fits the representations of its types. -/
theorem castFits_classifyCast (hw : env.config.pointerBits = 16 ∨ env.config.pointerBits = 32 ∨
      env.config.pointerBits = 64) {source target : Ty} {kind : Types.CastKind}
    (h : env.layout.classifyCast? source target = some kind) :
    CastFits kind (env.ir source) (env.ir target) := by
  unfold Types.Layout.classifyCast? at h
  split at h
  · rename_i heq
    cases h
    exact congrArg env.ir heq
  split at h
  · cases h
  · cases h
  · rename_i a b _
    cases h
    have hf : ∀ w, (env.ir (.float w)).isFloat = true := fun w => Env.isFloat_ir _
    split <;> exact ⟨hf a, hf b⟩
  · obtain ⟨shape, hs, rfl⟩ := Option.map_eq_some_iff.1 h
    exact ⟨Env.isFloat_ir _, isInt_of_intShape? hw hs⟩
  · obtain ⟨shape, hs, rfl⟩ := Option.map_eq_some_iff.1 h
    exact ⟨isInt_of_intShape? hw hs, Env.isFloat_ir _⟩
  · split at h
    · rename_i sb signed tb _ hs ht
      cases h
      have hsb := intBits?_of_intShape? hw hs
      have htb := intBits?_of_intShape? hw ht
      unfold Types.CastKind.betweenInts
      split
      · rename_i he
        subst he
        exact Emit.eq_of_intBits? hsb htb
      · split
        · rename_i hlt
          exact ⟨_, _, hsb, htb, Nat.le_of_lt hlt⟩
        · exact ⟨isInt_of_intShape? hw hs, isInt_of_intShape? hw ht⟩
    · cases h

theorem lowerCast_runs (h : s.Live env) {o : Operand} (ho : o.Ok env) (target : TypeExpr)
    (span : Span) : (lowerCast env o target span).Runs s (Typed.Fits env) := by
  refine Attempt.Runs.bind (resolve_runs h target span) fun t s₁ o₁ _ => ?_
  refine Attempt.Runs.bind (ho _ (h.onward o₁)) fun v s₂ o₂ hv => ?_
  have h₂ := (h.onward o₁).onward o₂
  split
  · exact Attempt.reject_runs h₂.live rfl
  · rename_i kind hk
    refine Attempt.Runs.bind (Attempt.emit_runs (emitCast_gives h₂.live hv
      (castFits_classifyCast h₂.fits.width hk) (Env.isScalar_ir t))) fun r s₃ o₃ hr => ?_
    exact Attempt.Runs.pure o₃.builder.live hr

end

/-! ### Expressions -/

mutual

/-- Every expression lowers well. -/
theorem operand_ok (env : Env) : (e : Expr) → Operand.Ok env ⟨e, lowerExpr env e⟩
  | .int s v => fun expected h => lowerLiteral_runs h rfl expected
  | .float s bits => fun expected h => lowerLiteral_runs h rfl expected
  | .bool _ b => fun _ h =>
    Attempt.Runs.bind (Attempt.emit_runs (Emit.constBool_onward h.live b)) fun _ _ o hv =>
      Attempt.Runs.pure o.builder.live hv
  | .char _ c => fun _ h =>
    Attempt.Runs.bind (Attempt.emit_runs (Emit.constInt_onward h.live rfl _)) fun _ _ o hv =>
      Attempt.Runs.pure o.builder.live hv
  | .str _ text => fun _ h =>
    Attempt.Runs.bind (Attempt.emit_runs (Emit.globalString_onward h.live text)) fun _ _ o hv =>
      Attempt.Runs.pure o.builder.live hv
  | .unit _ => fun _ h => Attempt.lift_runs (unit_runs h)
  | .null _ => fun _ h =>
    Attempt.Runs.bind (Attempt.emit_runs (Emit.constNull_onward h.live)) fun _ _ o hv =>
      Attempt.Runs.pure o.builder.live hv
  | .ident s name => fun _ h => lowerIdent_runs h name s
  | .unary s op e => by
    intro expected h
    dsimp only
    rw [lowerExpr]
    split
    · rename_i kind hk
      exact lowerLiteral_runs h hk expected
    · exact lowerUnary_runs h op (operand_ok env e) s expected
  | .binary s op l r => by
    intro expected h
    dsimp only
    rw [lowerExpr]
    split
    · rename_i kind hk
      exact lowerLiteral_runs h hk expected
    · exact lowerBinary_runs h op (operand_ok env l) (operand_ok env r) s
  | .cast s e t => fun _ h => lowerCast_runs h (operand_ok env e) t s
  | .call s callee args => fun _ h => lowerCall_runs h callee (operands_ok env args) s
  | .methodCall s r method args => fun _ h =>
    lowerMethodCall_runs h (operand_ok env r) method (operands_ok env args) s
  | .field s r name => fun _ h => lowerField_runs h (operand_ok env r) name s
  | .index s r i => fun _ h => lowerIndexing_runs h (operand_ok env r) (operand_ok env i) s
  | .record s name inits => fun _ h => lowerRecord_runs h name (initOperands_ok env inits) s
  | .vectorNew s elem => fun _ h => lowerVectorNew_runs h elem s
termination_by structural e => e

theorem operands_ok (env : Env) : (es : List Expr) → ∀ o ∈ operands env es, o.Ok env
  | [] => by simp [operands]
  | e :: rest => by
    intro o ho
    rcases List.mem_cons.1 ho with rfl | ho
    · exact operand_ok env e
    · exact operands_ok env rest o ho
termination_by structural es => es

theorem initOperands_ok (env : Env) : (es : List (String × Expr)) →
    ∀ p ∈ initOperands env es, p.2.Ok env
  | [] => by simp [initOperands]
  | (name, e) :: rest => by
    intro p hp
    rcases List.mem_cons.1 hp with rfl | hp
    · exact operand_ok env e
    · exact initOperands_ok env rest p hp
termination_by structural es => es

end

end BlockForge.Lowering
