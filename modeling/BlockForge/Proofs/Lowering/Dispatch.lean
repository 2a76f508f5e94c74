import BlockForge.Proofs.Lowering.Declarations
import BlockForge.Proofs.Lowering.EntryPoint
import BlockForge.Proofs.Lowering.Undefined

/-!
# What a call is resolved to

A call by symbol is looked up among the functions, a call on a receiver among the methods of its type, and
one on a vector among the operations of vectors only. A method of any other type is called as it was
declared, with the receiver in front. A symbol whose declaration failed is known as such, but not the method
that it stood for.
-/

namespace BlockForge.Ir.Emit

open Builder

/-- The current block is one call longer. No other code differs, and the call has as many arguments as the
callee has parameters. -/
structure CallsOnce (callee : FuncId) (args : List ValueId) (ret : Ty) (v : ValueId) (b b' : Builder) :
    Prop where
  code : ∃ c, b.current = some c ∧ b'.current = some c ∧ ∀ i, b'.function.code i =
    if i = c then b.function.code i ++ [⟨if ret = .void then none else some v, .call (.func callee) args ret⟩]
    else b.function.code i
  ending : b'.function.ending = b.function.ending
  others : ∀ j, j ≠ b.func → b'.module.function? j = b.module.function? j
  broken : b'.broken = b.broken

section

variable {b : Builder} {c : BlockId} (hc : b.current = some c) (ho : b.function.ending c = none)
  (hv : b.func.index < b.module.functions.size)

include hc ho hv

theorem emit_eq (ty : Ty) (kind : InstKind) (name : String) :
    emit ty kind name b = (⟨b.function.values.size⟩,
      (b.modifyFunction (·.addValue ⟨ty, .inst c, name⟩)).modifyFunction
        (·.addInst c ⟨some ⟨b.function.values.size⟩, kind⟩)) := by
  have hget : (get : Emit Builder) b = (b, b) := rfl
  have hpush : pushValue ty (.inst (b.current.getD Id.entry)) name b =
      (⟨b.function.values.size⟩, b.modifyFunction (·.addValue ⟨ty, .inst c, name⟩)) := by
    rw [hc]
    rfl
  have hopen : (b.modifyFunction (·.addValue ⟨ty, .inst c, name⟩)).function.ending c = none := by
    rw [function_modifyFunction hv]
    exact ho
  unfold emit
  rw [StateM.bind_eq hget, StateM.bind_eq hpush]
  exact StateM.bind_eq (insert_eq (b := b.modifyFunction _) hc hopen _ _)

theorem call_eq {func : FuncId} {f : Function} {args : List ValueId}
    (hf : b.module.function? func = some f) (hn : f.params.length = args.length) (name : String) :
    call func args name b =
      if f.ret = .void then (none, b.modifyFunction (·.addInst c ⟨none, .call (.func func) args f.ret⟩))
      else (some ⟨b.function.values.size⟩,
        (b.modifyFunction (·.addValue ⟨f.ret, .inst c, name⟩)).modifyFunction
          (·.addInst c ⟨some ⟨b.function.values.size⟩, .call (.func func) args f.ret⟩)) := by
  have hdemand : demand .callArity (fun b => ((b.module.function? func).elim 0 (·.params.length)) =
      args.length) b = ((), b) := by
    show ((), b.demand .callArity _) = _
    simp [Builder.demand, hf, hn]
  unfold call
  rw [StateM.bind_eq hdemand]
  show callAt (.func func) ((b.module.function? func).elim _ _) args name b = _
  rw [hf, Option.elim_some, callAt]
  split
  · exact StateM.bind_eq (insert_eq hc ho _ _)
  · rw [map_eq_pure_bind, StateM.bind_eq (emit_eq hc ho hv _ _ _)]
    rfl

end

/-- A call and a value: that of its result, or the one that stands for a missing result. -/
theorem callsOnce_of_edits {b : Builder} (ho : b.Opened) {c : BlockId} (hc : b.current = some c)
    {func : FuncId} {args : List ValueId} {ret : Ty} {v : ValueId} (val : Value) {F G : Function → Function}
    (hedit : ∀ f, G (F f) =
      (f.addInst c ⟨if ret = .void then none else some v, .call (.func func) args ret⟩).addValue val) :
    CallsOnce func args ret v b ((b.modifyFunction F).modifyFunction G) := by
  obtain ⟨d, hd, hlt, -⟩ := ho.position
  obtain rfl : c = d := Option.some.inj (hc.symm.trans hd)
  have hvalid : (b.modifyFunction F).func.index < (b.modifyFunction F).module.functions.size := by
    simpa [Builder.modifyFunction, Module.modifyFunction] using ho.valid
  have hfun : ((b.modifyFunction F).modifyFunction G).function = G (F b.function) := by
    rw [function_modifyFunction hvalid, function_modifyFunction ho.valid]
  refine ⟨⟨c, hc, hc, fun i => ?_⟩, ?_, fun j hj => ?_, rfl⟩
  · rw [hfun, hedit, Function.code_addValue, Function.code_addInst hlt]
  · rw [hfun, hedit, Function.ending_addValue, Function.ending_addInst]
  · exact (function?_modifyFunction_ne (b.modifyFunction F) G hj).trans (function?_modifyFunction_ne b F hj)

end BlockForge.Ir.Emit

namespace BlockForge.Lowering

open Ir (BlockId Builder Emit FuncId ValueId)
open Ir.Emit (CallsOnce)
open Source (Expr FunctionDef Program Span TypeExpr)
open BlockForge.Types (Ty)

theorem emitCall_once {config : Config} {sig : Signature} {s : State} (ho : s.builder.Opened)
    {f : Ir.Function} (hf : s.builder.module.function? sig.func = some f)
    (hret : f.ret = config.layout.returnIrType sig.ret) {args : List ValueId}
    (hn : f.params.length = args.length) (name : String) :
    ∃ v b', emitCall sig name args s = (v, { s with builder := b' }) ∧ v.ty = sig.ret ∧
      CallsOnce sig.func args (config.layout.returnIrType sig.ret) v.value s.builder b' := by
  obtain ⟨c, hc, -, hopen⟩ := ho.position
  have hcall := Ir.Emit.call_eq hc hopen ho.valid hf hn name
  rw [hret] at hcall
  by_cases hvoid : config.layout.returnIrType sig.ret = .void
  · rw [if_pos hvoid] at hcall
    have hunit : sig.ret = .unit := by
      have hu := (returnIrType_eq_void sig.ret).1 hvoid
      cases ht : sig.ret <;> simp_all [Ty.isUnit]
    refine ⟨⟨_, .unit⟩, _, StateM.bind_eq (Lower.yields_emit hcall s rfl rfl), hunit.symm, ?_⟩
    apply Ir.Emit.callsOnce_of_edits ho hc ⟨.i8, .constInt (Word.mask 0 8), ""⟩
    intro g
    rw [if_pos hvoid]
    rfl
  · rw [if_neg hvoid] at hcall
    refine ⟨⟨_, sig.ret⟩, _, StateM.bind_eq (Lower.yields_emit hcall s rfl rfl), rfl, ?_⟩
    apply Ir.Emit.callsOnce_of_edits ho hc ⟨config.layout.returnIrType sig.ret, .inst c, name⟩
    intro g
    rw [if_neg hvoid]
    rfl

/-! ### Lowering without reports -/

/-- Expressions are lowered in order, each to a value that can be stored where its type is expected. -/
inductive LowersTo (env : Env) : List Expr → List Ty → State → List ValueId → State → Prop
  | nil {s} : LowersTo env [] [] s [] s
  | cons {e t es ts s v s₁ vs s'} (he : (lowerExpr env e (some t)).run s = (some v, s₁))
      (ht : Types.assignable v.ty t = true) (hrest : LowersTo env es ts s₁ vs s') :
      LowersTo env (e :: es) (t :: ts) s (v.value :: vs) s'

/-- Code can be added to an open block, in a module with the functions of the tables. -/
structure State.Writes (c : Collection) (s : State) : Prop where
  opened : s.builder.Opened
  heads : ∀ j, (s.builder.module.function? j).map (·.head) = (c.module.function? j).map (·.head)

theorem head_of_inside {s b : Builder} (h : Emit.Inside s b)
    (hv : s.func.index < s.module.functions.size) (j : FuncId) :
    (b.module.function? j).map (·.head) = (s.module.function? j).map (·.head) := by
  by_cases hj : j = s.func
  · rw [hj, Builder.function?_eq hv, ← h.func, Builder.function?_eq (h.valid hv), Option.map_some,
      Option.map_some, h.head]
  · rw [h.others j hj]

theorem State.Writes.advances {c : Collection} {s : State} (h : s.Writes c) {b : Builder}
    (ha : Emit.Advances s.builder b) : State.Writes c { s with builder := b } :=
  ⟨ha.opened, fun j => (head_of_inside ha.toInside h.opened.valid j).trans (h.heads j)⟩

theorem bodyStart_writes {config : Config} {allocator : Allocator} (ha : allocator.IsInline) {p : Program}
    {i : Nat} {d : FunctionDef} {sig : Signature}
    (hd : Declares p (Collection.ofProgram config p).tables i d sig) :
    (bodyStart config allocator p i d sig).Writes (Collection.ofProgram config p) := by
  have hlt : i < p.functions.length := (List.getElem?_eq_some_iff.1 hd.1).1
  have hready := lowerFirst_ready config ha (Nat.le_of_lt hlt) (p := p)
  have hf := hready.todo _ (mem_of_lookup hd.2.1) (Nat.le_of_eq hd.2.2.symm)
  rw [hd.declared.1] at hf
  obtain ⟨entry, b₁, b₂, he, hp, hin⟩ := Ir.Emit.entry_enters hf
  let env := definitionEnv config allocator (Collection.ofProgram config p).tables d sig
  let q := (lowerFirst config allocator p i).2
  let s₁ : State := ⟨b₂, q, Scope.push {}, [], false, {}⟩
  have hs₁ : s₁.Sane := ⟨hin.placed, by rintro i ⟨t, ht, -⟩; cases ht⟩
  have heq : bodyStart config allocator p i d sig = (bindParams env 0 (parameters d sig) s₁).2 := by
    simp only [bodyStart, enterFunction, Bind.bind, StateT.bind, Lower.emit, he, hp]
    rfl
  obtain ⟨s₂, log, hm, hpass, -⟩ := bindParams_passes env hs₁ hin.reached 0 (parameters d sig)
  have hrun : bindParams env 0 (parameters d sig) s₁ = _ := hm q {}
  rw [heq, hrun]
  refine ⟨(hs₁.passes hpass).placed.opened (hpass.live.2 rfl), fun j => ?_⟩
  rw [← hready.heads j]
  exact head_of_inside (hin.toInside.trans hpass.builds.toInside) (Array.getElem?_eq_some_iff.1 hf).1 j

section

variable {env : Env} {s s' : State} {es : List Expr} {ts : List Ty} {vs : List ValueId}

/-- An expression that has a value has changed nothing but the builder. -/
theorem lowerExpr_quiet (henv : env.Shaped) (ho : s.builder.Opened) {e : Expr} {expected : Option Ty}
    {v : Typed} (he : (lowerExpr env e expected).run s = (some v, s')) :
    ∃ b, s' = { s with builder := b } ∧ Emit.Advances s.builder b := by
  have hjudged : (lowerExpr env e expected).Judged s.scope s.builder _ _ :=
    (operand_sound henv e).judged expected ho
  obtain ⟨a, b, log, hy, -, ha, hv⟩ := hjudged
  have hrun := (hy s rfl rfl).symm.trans he
  obtain ⟨rfl, rfl⟩ := Prod.mk.inj hrun
  obtain ⟨rfl, -⟩ := hv
  exact ⟨b, rfl, ha⟩

theorem LowersTo.quiet (henv : env.Shaped) (h : LowersTo env es ts s vs s') (ho : s.builder.Opened) :
    ∃ b, s' = { s with builder := b } ∧ Emit.Advances s.builder b := by
  induction h with
  | nil => exact ⟨_, rfl, .refl ho⟩
  | cons he ht hrest ih =>
    obtain ⟨b₁, rfl, a₁⟩ := lowerExpr_quiet henv ho he
    obtain ⟨b₂, rfl, a₂⟩ := ih a₁.opened
    exact ⟨b₂, rfl, a₁.trans a₂⟩

theorem LowersTo.length (h : LowersTo env es ts s vs s') :
    es.length = ts.length ∧ vs.length = ts.length := by
  induction h with
  | nil => exact ⟨rfl, rfl⟩
  | cons he ht hrest ih =>
    simp only [List.length_cons]
    omega

theorem LowersTo.lowerArgs (h : LowersTo env es ts s vs s') (callee : String) (position : Nat) :
    lowerArgs callee position ((operands env es).zip ts) s = (some vs, s') := by
  induction h generalizing position with
  | nil => rfl
  | @cons e t es ts s v s₁ vs s' he ht hrest ih =>
    have hone : ∀ context, ((⟨e, lowerExpr env e⟩ : Operand).lowerAs t context).run s =
        (some ⟨v.value, t⟩, s₁) := by
      intro context
      refine (StateM.bind_eq he).trans ?_
      simp only [Attempt.coerce, ht, if_true]
      rfl
    rw [operands, List.zip_cons_cons, BlockForge.Lowering.lowerArgs]
    refine (StateM.bind_eq (hone _)).trans ?_
    exact StateM.bind_eq (ih (position + 1))

end

/-! ### What is called -/

theorem Attempt.lift_bind_run {α β : Type} {x : Lower α} {f : α → Attempt β} {s s' : State} {a : α}
    (h : x s = (a, s')) : (liftM x >>= f : Attempt β).run s = (f a).run s' := by
  have hsome : (some <$> x) s = (some a, s') := by
    show (some (x s).1, (x s).2) = _
    rw [h]
  exact StateM.bind_eq hsome

section

variable {env : Env} {s s₁ : State} {r : Expr} {recv : Typed} {m : String} {args : List Expr}

/-- A call on a type other than a vector goes to the methods of the tables. -/
theorem methodCall_run (hr : (lowerExpr env r none).run s = (some recv, s₁)) (ht : recv.ty.element? = none)
    (span : Span) (expected : Option Ty) :
    (lowerExpr env (.methodCall span r m args) expected).run s =
      (lowerUserMethod env recv m (operands env args) span).run s₁ := by
  refine (Attempt.lift_bind_run hr).trans ?_
  dsimp only
  split
  · rename_i elem hv
    rw [hv] at ht
    cases ht
  · rfl

theorem vectorCall_run (hr : (lowerExpr env r none).run s = (some recv, s₁)) {elem : Ty}
    (ht : recv.ty = .vector elem) (span : Span) (expected : Option Ty) :
    (lowerExpr env (.methodCall span r m args) expected).run s =
      (lowerVectorMethod env recv elem m (operands env args) span).run s₁ := by
  refine (Attempt.lift_bind_run hr).trans ?_
  dsimp only
  rw [ht]

theorem length_operands (env : Env) (es : List Expr) : (operands env es).length = es.length := by
  rw [← List.length_map (f := (·.expr)), operands_expr]

theorem userMethod_run {symbol : String} {sig : Signature} (hm : env.tables.method? recv.ty m = some symbol)
    (hf : env.tables.function? symbol = some sig) {vs : List ValueId} {s₂ s' : State} {v : Typed}
    (hargs : LowersTo env args sig.params s₁ vs s₂)
    (hcall : emitCall sig symbol (recv.value :: vs) s₂ = (v, s')) (span : Span) :
    (lowerUserMethod env recv m (operands env args) span).run s₁ = (some v, s') := by
  have hlen : ¬(operands env args).length ≠ sig.params.length := by
    rw [length_operands, hargs.length.1]
    simp
  unfold lowerUserMethod
  rw [hm]
  dsimp only
  rw [hf]
  dsimp only [lowerCallTo]
  rw [if_neg hlen]
  refine (Attempt.lift_bind_run (hargs.lowerArgs m 1)).trans ?_
  show (some (emitCall sig symbol (recv.value :: vs) s₂).1, (emitCall sig symbol (recv.value :: vs) s₂).2) = _
  rw [hcall]

/-- The state after one report and the lowering of arguments for their own. -/
def reportedBefore (env : Env) (d : Diagnostic.Diag) (args : List Expr) (s : State) : State :=
  (visitAll (operands env args) (Lower.report d s).2).2

/-- A method that a type does not have is reported, once the receiver is lowered. -/
theorem unknownMethod_run (hr : (lowerExpr env r none).run s = (some recv, s₁))
    (hm : recv.ty.element? = none ∧ env.tables.method? recv.ty m = none ∨
      recv.ty.element?.isSome = true ∧ VectorOp.ofName? m = none) (span : Span) (expected : Option Ty) :
    (lowerExpr env (.methodCall span r m args) expected).run s =
      (none, reportedBefore env (Problem.unknownMethod span m recv.ty.render) args s₁) := by
  rcases hm with ⟨ht, hnone⟩ | ⟨ht, hnone⟩
  · rw [methodCall_run hr ht, lowerUserMethod, hnone]
    rfl
  · cases hv : recv.ty <;> rw [hv] at ht <;> try cases ht
    rename_i elem
    rw [vectorCall_run hr hv, lowerVectorMethod, hnone, hv]
    rfl

end

section

variable {config : Config} {allocator : Allocator} {p : Program} {i : Nat} {d : FunctionDef}

/-- Methods are called as declared, but on vectors. Where a receiver is lowered to the type that a method
was declared for and the arguments to what its parameters take, a call of the method submits nothing and is
one call of the function that the method's definition was lowered to, with the receiver in front. If the
type is a vector the method is unknown instead, unless an operation of vectors has its name. -/
theorem declared_methods_are_called (ha : allocator.IsInline) {sig : Signature}
    (hdecl : Declares p (Collection.ofProgram config p).tables i d sig) {t : TypeExpr} {m : String}
    (hd : d.receiver = some (t, m)) {caller : FunctionDef} {callerSig : Signature} {env : Env}
    (henv : env = definitionEnv config allocator (Collection.ofProgram config p).tables caller callerSig)
    {s s₁ s₂ : State} {r : Expr} {recv : Typed} {args : List Expr} {vs : List ValueId}
    (hs : s.Writes (Collection.ofProgram config p))
    (hr : (lowerExpr env r none).run s = (some recv, s₁)) (ht : env.tables.resolve t = .ok recv.ty)
    (hargs : LowersTo env args sig.params s₁ vs s₂) (span : Span) (expected : Option Ty) :
    (lowerProgram config allocator p).module.function? sig.func =
      some (definitionState config allocator p i d sig).builder.function ∧
    (recv.ty.element? = none → ∃ v b,
      (lowerExpr env (.methodCall span r m args) expected).run s = (some v, { s with builder := b }) ∧
      v.ty = sig.ret ∧ CallsOnce sig.func (recv.value :: vs) (config.layout.returnIrType sig.ret) v.value
        s₂.builder b) ∧
    (recv.ty.element?.isSome = true → VectorOp.ofName? m = none →
      (lowerExpr env (.methodCall span r m args) expected).run s =
        (none, reportedBefore env (Problem.unknownMethod span m recv.ty.render) args s₁)) := by
  subst henv
  have hshaped := definitionEnv_shaped (Collection.ofProgram_fits config p) ha caller callerSig
  refine ⟨hdecl.output ha, fun hno => ?_, fun hvec hname => ?_⟩
  · obtain ⟨T, hT, hres, hmethod⟩ := hdecl.method hd
    obtain rfl : T = recv.ty := Except.ok.inj (hres.symm.trans ht)
    obtain ⟨b₁, rfl, a₁⟩ := lowerExpr_quiet hshaped hs.opened hr
    obtain ⟨b₂, rfl, a₂⟩ := hargs.quiet hshaped a₁.opened
    have hs₂ := (hs.advances a₁).advances a₂
    have hhead := hs₂.heads sig.func
    rw [hdecl.declared.1, Option.map_some, Option.map_eq_some_iff] at hhead
    obtain ⟨f, hf, hfh⟩ := hhead
    simp only [Ir.Function.head, Ir.Function.declare, Prod.mk.injEq] at hfh
    obtain ⟨hlen, hvs⟩ := hargs.length
    have harity : f.params.length = (recv.value :: vs).length := by
      rw [hfh.2.1, hT]
      simp only [Option.toList_some, List.length_map, List.length_append, List.length_cons, List.length_nil]
      omega
    obtain ⟨v, b, hcall, hty, honce⟩ := emitCall_once a₂.opened hf hfh.2.2 harity d.symbol
    refine ⟨v, b, ?_, hty, honce⟩
    rw [methodCall_run hr hno]
    exact userMethod_run hmethod hdecl.2.1 hargs hcall span
  · exact unknownMethod_run hr (.inr ⟨hvec, hname⟩) span expected

theorem flush_perm (q : Diagnostic.Queue) : q.flush.1.Perm q.kept.toList := List.mergeSort_perm ..

/-! A program with a method of one parameter and a call of it. -/

def methodOn (t : TypeExpr) (m : String) (param : TypeExpr) : FunctionDef where
  symbol := "method"
  receiver := some (t, m)
  params := [⟨"x", param, ⟨2, 3⟩⟩]
  returnType := .named "i32"
  body := [.ret ⟨6, 7⟩ (some (.int ⟨4, 5⟩ 7))]
  span := ⟨0, 1⟩

def callOn (receiver : Expr) (m : String) : FunctionDef where
  symbol := "caller"
  receiver := none
  params := []
  returnType := .unit
  body := [.expr ⟨16, 17⟩ (.methodCall ⟨14, 15⟩ receiver m [.bool ⟨12, 13⟩ false])]
  span := ⟨8, 9⟩

def methodAndCall (t : TypeExpr) (m : String) (param : TypeExpr) (receiver : Expr) : Program where
  structs := []
  functions := [methodOn t m param, callOn receiver m]

def callEnv (p : Program) : Env := ⟨{}, (Collection.ofProgram {} p).tables, .collector, .unit, "caller"⟩

theorem declared_methods_are_called_both : ∃ (s s₂ : State) (recv arg : ValueId) (v : Typed) (b : Builder),
    (lowerExpr (callEnv (methodAndCall (.named "bool") "both" (.named "bool") (.bool ⟨10, 11⟩ true)))
      (.methodCall ⟨14, 15⟩ (.bool ⟨10, 11⟩ true) "both" [.bool ⟨12, 13⟩ false]) none).run s =
        (some v, { s with builder := b }) ∧
      v.ty = .signed .w32 ∧ CallsOnce ⟨0⟩ [recv, arg] .i32 v.value s₂.builder b := by
  let p := methodAndCall (.named "bool") "both" (.named "bool") (.bool ⟨10, 11⟩ true)
  have hmethod : Declares p (Collection.ofProgram {} p).tables 0 (methodOn (.named "bool") "both" (.named "bool"))
      ⟨⟨0⟩, 0, some .bool, [.bool], .signed .w32⟩ := ⟨rfl, rfl, rfl⟩
  have hcaller : Declares p (Collection.ofProgram {} p).tables 1 (callOn (.bool ⟨10, 11⟩ true) "both")
      ⟨⟨1⟩, 1, none, [], .unit⟩ := ⟨rfl, rfl, rfl⟩
  have hbool : ∀ {span expected} b s, ∃ v s', (lowerExpr (callEnv p) (.bool span b) expected).run s =
      (some ⟨v, .bool⟩, s') := fun b s => ⟨_, _, rfl⟩
  obtain ⟨recv, s₁, hr⟩ := hbool true (bodyStart {} .collector p 1 (callOn (.bool ⟨10, 11⟩ true) "both")
    ⟨⟨1⟩, 1, none, [], .unit⟩)
  obtain ⟨arg, s₂, harg⟩ := hbool false s₁
  have henv : callEnv p = definitionEnv {} .collector (Collection.ofProgram {} p).tables
    (callOn (.bool ⟨10, 11⟩ true) "both") ⟨⟨1⟩, 1, none, [], .unit⟩ := rfl
  obtain ⟨-, hcalled, -⟩ := declared_methods_are_called collector_inline hmethod rfl henv
    (bodyStart_writes collector_inline hcaller) hr rfl (.cons harg rfl .nil) ⟨14, 15⟩ none
  obtain ⟨v, b, hrun, hty, honce⟩ := hcalled rfl
  exact ⟨_, s₂, recv, arg, v, b, hrun, hty, honce⟩

/-- A method of vectors is declared without a report and then unknown. -/
theorem methods_of_vectors_are_unknown :
    let p := methodAndCall (.vector (.named "bool")) "count" (.named "bool") (.vectorNew ⟨10, 11⟩ (.named "bool"))
    (∃ sig, Declares p (Collection.ofProgram {} p).tables 0
      (methodOn (.vector (.named "bool")) "count" (.named "bool")) sig ∧
      sig.receiver = some (.vector .bool) ∧ sig.params = [.bool]) ∧
    (Collection.ofProgram {} p).diags.kept = #[] ∧
    (lowerProgram {} .collector p).diagnostics =
      [Problem.unknownMethod ⟨14, 15⟩ "count" "Vector<bool>"] := by
  refine ⟨⟨⟨⟨0⟩, 0, some (.vector .bool), [.bool], .signed .w32⟩, ⟨rfl, rfl, rfl⟩, rfl, rfl⟩,
    ?_, ?_⟩
  · decide +kernel
  · decide +kernel

/-- Symbols are poisoned, but methods are not. If a parameter or the result of a definition has an unknown
type and no other definition has its symbol, then a call by that symbol submits nothing of its own. If it
stands for a method and no other one has that name for its receiver type, then a call on a receiver of that
type reports an unknown method. Arguments are lowered either way. -/
theorem unresolved_signatures_poison_symbols (hd : p.functions[i]? = some d)
    (hu : Unresolved (Collection.ofProgram config p).tables d)
    (hs : ∀ {j e}, p.functions[j]? = some e → e.symbol = d.symbol → j = i) {env : Env}
    (henv : env.tables = (Collection.ofProgram config p).tables) (args : List Expr) (span : Span)
    (expected : Option Ty) (s : State) :
    (lowerExpr env (.call span d.symbol args) expected).run s =
      (none, (visitAll (operands env args) s).2) ∧
    ∀ {t m}, d.receiver = some (t, m) → ∀ {r recv s₁}, (lowerExpr env r none).run s = (some recv, s₁) →
      env.tables.resolve t = .ok recv.ty →
      (∀ {j e t'}, p.functions[j]? = some e → e.receiver = some (t', m) →
        env.tables.resolve t' = .ok recv.ty → j = i) →
      (recv.ty.element? = none ∨ VectorOp.ofName? m = none) →
      (lowerExpr env (.methodCall span r m args) expected).run s =
        (none, reportedBefore env (Problem.unknownMethod span m recv.ty.render) args s₁) := by
  obtain ⟨hnone, hpoisoned⟩ := Unresolved.isPoisoned hd hu hs
  refine ⟨?_, fun {t m} hm {r recv s₁} hr ht ho hno => ?_⟩
  · show (lowerCall env d.symbol (operands env args) span).run s = _
    rw [lowerCall, henv, hnone, hpoisoned]
    rfl
  · apply unknownMethod_run hr
    rw [henv] at ho ⊢
    cases hel : recv.ty.element? with
    | none => exact .inl ⟨rfl, Unresolved.method?_eq_none hd hu ho⟩
    | some elem => exact .inr ⟨rfl, hno.resolve_left (by simp [hel])⟩

/-- A method whose parameter has an unknown type. -/
def poisonedMethod : Program := methodAndCall (.named "bool") "both" (.named "Nope") (.bool ⟨10, 11⟩ true)

theorem unresolved_signatures_poison_symbols_both : ∃ s s₁ : State,
    (lowerExpr (callEnv poisonedMethod) (.call ⟨14, 15⟩ "method" [.bool ⟨12, 13⟩ false]) none).run s =
      (none, (visitAll (operands (callEnv poisonedMethod) [.bool ⟨12, 13⟩ false]) s).2) ∧
    (lowerExpr (callEnv poisonedMethod)
      (.methodCall ⟨14, 15⟩ (.bool ⟨10, 11⟩ true) "both" [.bool ⟨12, 13⟩ false]) none).run s =
      (none, reportedBefore (callEnv poisonedMethod) (Problem.unknownMethod ⟨14, 15⟩ "both" "bool")
        [.bool ⟨12, 13⟩ false] s₁) := by
  have hu : Unresolved (Collection.ofProgram {} poisonedMethod).tables
      (methodOn (.named "bool") "both" (.named "Nope")) := .inl ⟨_, List.mem_singleton_self _, "Nope", rfl⟩
  have hsymbol : ∀ {j e}, poisonedMethod.functions[j]? = some e → e.symbol = "method" → j = 0 := by
    intro j e he hs
    rcases j with _ | _ | j
    · rfl
    · cases he
      exact absurd hs (by decide)
    · cases he
  have hname : ∀ {j e t}, poisonedMethod.functions[j]? = some e → e.receiver = some (t, "both") →
      (callEnv poisonedMethod).tables.resolve t = .ok .bool → j = 0 := by
    intro j e t he hs _
    rcases j with _ | _ | j
    · rfl
    · cases he
      cases hs
    · cases he
  have henv : (callEnv poisonedMethod).tables = (Collection.ofProgram {} poisonedMethod).tables := rfl
  obtain ⟨s⟩ : Nonempty State := ⟨bodyStart {} .collector poisonedMethod 1
    (callOn (.bool ⟨10, 11⟩ true) "both") ⟨⟨1⟩, 1, none, [], .unit⟩⟩
  obtain ⟨v, s₁, hr⟩ : ∃ v s₁, (lowerExpr (callEnv poisonedMethod) (.bool ⟨10, 11⟩ true) none).run s =
      (some ⟨v, .bool⟩, s₁) := ⟨_, _, rfl⟩
  obtain ⟨hquiet, hreport⟩ := unresolved_signatures_poison_symbols rfl hu hsymbol henv
    [.bool ⟨12, 13⟩ false] ⟨14, 15⟩ none s
  have hunknown := hreport rfl hr rfl hname (.inl rfl)
  exact ⟨s, s₁, hquiet, hunknown⟩

/-- The unknown type of a method's parameter is reported a second time, as an unknown method. -/
theorem poisoned_method_is_unknown : (lowerProgram {} .collector poisonedMethod).diagnostics.Perm
    [Problem.unknownType ⟨2, 3⟩ "Nope", Problem.unknownMethod ⟨14, 15⟩ "both" "bool"] := by
  have hkept : (addEntryWrapper {} poisonedMethod (Collection.ofProgram {} poisonedMethod).tables
      (lowerFirst {} .collector poisonedMethod poisonedMethod.functions.length)).2.kept.toList =
        [Problem.unknownType ⟨2, 3⟩ "Nope", Problem.unknownMethod ⟨14, 15⟩ "both" "bool"] := by
    decide +kernel
  rw [lowerProgram_eq, ← hkept]
  apply flush_perm

end

end BlockForge.Lowering
