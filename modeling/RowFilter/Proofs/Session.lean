import RowFilter.Proofs.Ledger
import RowFilter.Proofs.Script.Equality
import RowFilter.Script.Builder
import RowFilter.Sql.Command

/-!
# Runs over one supply

A session is a run of operations that take names from one supply: names are taken directly,
filters are compiled, and statements are written.  It keeps the names it has handed out, the
bindings that compilations have made, whether or not they succeeded, and the conditions that
have come out of them.

One operation takes its names from the supply in turn, so a run does (`Sound.run`).  Hence
the names of a run are all different and are counted by the supply (`nodup_names_run`).  A
compilation that succeeds adds just the names in its condition (`names_step_of_compiles`).
The bindings of the conditions are among those that compilations have made, so a name stands
for one value in all of them (`Sound.nodup_bound_append`).
-/

set_option autoImplicit false

namespace RowFilter

open Script Sql

/-! ## Operations -/

/-- Something that takes names from a supply. -/
inductive Operation where
  /-- Take one name. -/
  | take
  /-- Take one name with a given beginning. -/
  | takeWith (lead : String)
  | compile (source : String)
  | compileExpr (e : Expr)
  /-- Write the command of a statement. -/
  | write (statement : Sql.Statement)

/-- An operation compiles a filter, with the names of a supply, to a condition. -/
inductive Operation.Compiles (supply : NameSupply) : Operation → Condition → Prop
  | compile {source : String} {n : Condition} :
      (RowFilter.compile source supply).result = .ok n → Compiles supply (.compile source) n
  | compileExpr {e : Expr} {n : Condition} :
      (RowFilter.compileExpr e supply).result = .ok n → Compiles supply (.compileExpr e) n

/-- The names in the outcome of writing a statement that were not in the statement before. -/
def Sql.Statement.newNames :
    Sql.Statement → Except UpdateError Command → List String
  | .insert _, .ok command => command.bindings.map Binding.name
  | .update q, .ok command => (command.bindings.take q.assignments.length).map Binding.name
  | _, _ => []

/-- What a run over a supply has led to. -/
structure Session where
  /-- The names that are left. -/
  supply : NameSupply
  /-- The names handed out so far, in order. -/
  names : List String
  /-- The bindings made by compilations, in order. -/
  bound : List Binding
  /-- The results of the compilations that have succeeded, in order. -/
  conditions : List Condition

namespace Session

/-- The beginning of a run. -/
def start (supply : NameSupply) : Session := ⟨supply, [], [], []⟩

/-- Names have been handed out. -/
def handedOut (s : Session) (names : List String) (rest : NameSupply) : Session :=
  ⟨rest, s.names ++ names, s.bound, s.conditions⟩

/-- A filter has been compiled, or has failed to be. -/
def compiled (s : Session) (c : Compilation) : Session :=
  ⟨c.supply, s.names ++ c.bound.map Binding.name, s.bound ++ c.bound,
    s.conditions ++ c.result.toOption.toList⟩

/-- One operation. -/
def step (s : Session) : Operation → Session
  | .take =>
      let (name, rest) := s.supply.take
      s.handedOut [name] rest
  | .takeWith lead =>
      let (name, rest) := s.supply.takeWith lead
      s.handedOut [name] rest
  | .compile source => s.compiled (RowFilter.compile source s.supply)
  | .compileExpr e => s.compiled (RowFilter.compileExpr e s.supply)
  | .write statement =>
      let (written, rest) := statement.command s.supply
      s.handedOut (statement.newNames written) rest

/-- Operations one after another. -/
def run (s : Session) (operations : List Operation) : Session :=
  operations.foldl step s

/-! ## What a session keeps -/

/-- A session that has begun with a supply. -/
structure Sound (supply : NameSupply) (s : Session) : Prop where
  handsOut : supply.HandsOut s.names s.supply
  /-- Compilations have bound values to names that were handed out. -/
  bound : (s.bound.map Binding.name).Sublist s.names
  /-- Conditions have no bindings but those of their compilations. -/
  conditions : ∀ n ∈ s.conditions, ∀ b ∈ n.bindings, b ∈ s.bound

theorem sound_start (supply : NameSupply) : Sound supply (start supply) where
  handsOut := .none supply
  bound := .slnil
  conditions _ member := absurd member List.not_mem_nil

theorem Sound.handedOut {supply rest : NameSupply} {s : Session} {names : List String}
    (sound : Sound supply s) (handsOut : s.supply.HandsOut names rest) :
    Sound supply (s.handedOut names rest) where
  handsOut := sound.handsOut.append handsOut
  bound := sound.bound.trans (List.sublist_append_left _ _)
  conditions := sound.conditions

theorem Sound.compiled {supply : NameSupply} {s : Session} {c : Compilation}
    (sound : Sound supply s) (accounts : c.Accounts s.supply) : Sound supply (s.compiled c) where
  handsOut := sound.handsOut.append accounts.handsOut
  bound := by
    simp only [Session.compiled, List.map_append]
    exact sound.bound.append (List.Sublist.refl _)
  conditions n member b binding := by
    simp only [Session.compiled, List.mem_append] at member ⊢
    rcases member with before | now
    · exact .inl (sound.conditions n before b binding)
    · have done : c.result = .ok n := by
        cases result : c.result with
        | error _ =>
            rw [result] at now
            cases now
        | ok n' =>
            rw [result] at now
            rw [List.mem_singleton.mp now]
      exact .inr (accounts.bindings n done ▸ binding)

/-- The new names of a statement are handed out when it is written. -/
theorem handsOut_command (statement : Sql.Statement) (supply : NameSupply) :
    supply.HandsOut (statement.newNames (statement.command supply).1)
      (statement.command supply).2 := by
  cases statement with
  | select q => exact .none supply
  | insert q => exact NameSupply.handsOut_bindAll q.values supply
  | update q =>
      simp only [Sql.Statement.command, Update.command]
      split
      · exact .none supply
      · have handsOut := NameSupply.handsOut_bindAll (q.assignments.map Prod.snd) supply
        have count := congrArg List.length
          (NameSupply.map_value_bindAll (q.assignments.map Prod.snd) supply)
        simp only [List.length_map] at count
        simp only [Sql.Statement.newNames, List.take_left' count]
        exact handsOut

/-- **One operation keeps a session sound.** -/
theorem Sound.step {supply : NameSupply} {s : Session} (sound : Sound supply s) :
    ∀ operation, Sound supply (s.step operation)
  | .take => sound.handedOut (.one s.supply s.supply.lead)
  | .takeWith lead => sound.handedOut (.one s.supply lead)
  | .compile source => sound.compiled (accounts_compile source s.supply)
  | .compileExpr e => sound.compiled (accounts_compileExpr e s.supply)
  | .write statement => sound.handedOut (handsOut_command statement s.supply)

/-- **A whole run does.** -/
theorem Sound.run {supply : NameSupply} {s : Session} (sound : Sound supply s)
    (operations : List Operation) : Sound supply (s.run operations) := by
  induction operations generalizing s with
  | nil => exact sound
  | cons operation operations ih => exact ih (sound.step operation)

/-! ## What compilations record -/

/-- A compilation that succeeds has handed out the names of its condition, in order. -/
theorem names_step_of_compiles {s : Session} {operation : Operation} {n : Condition}
    (compiles : operation.Compiles s.supply n) :
    (s.step operation).names = s.names ++ n.bindings.map Binding.name := by
  cases compiles with
  | @compile source _ done =>
      rw [(accounts_compile source s.supply).bindings n done]
      rfl
  | @compileExpr e _ done =>
      rw [(accounts_compileExpr e s.supply).bindings n done]
      rfl

/-- The next operation of a run. -/
theorem run_take_add_one {s : Session} {operations : List Operation} {count : Nat}
    {operation : Operation} (next : operations[count]? = some operation) :
    s.run (operations.take (count + 1)) = (s.run (operations.take count)).step operation := by
  rw [List.take_add_one, next, Option.toList_some, run, List.foldl_append]
  rfl

/-! ## Names are fresh -/

/-- The names bound by compilations differ from each other, and from any names that are handed
out next. -/
theorem Sound.nodup_bound_append {supply rest : NameSupply} {s : Session} {names : List String}
    (sound : Sound supply s) (next : s.supply.HandsOut names rest) :
    (s.bound.map Binding.name ++ names).Nodup :=
  (sound.handsOut.append next).nodup.sublist (sound.bound.append_right names)

/-- **The names that are handed out in a run are all different, and after any number of
operations the supply has the beginning it had and has counted the names.**  If the next
operation compiles a filter to a condition, the names it adds are those of the bindings of
the condition. -/
theorem nodup_names_run (supply : NameSupply) (operations : List Operation) :
    ((start supply).run operations).names.Nodup ∧
      ∀ count, let s := (start supply).run (operations.take count)
        s.supply.reserved = supply.reserved + s.names.length ∧ s.supply.lead = supply.lead ∧
          ∀ operation n, operations[count]? = some operation → operation.Compiles s.supply n →
            ((start supply).run (operations.take (count + 1))).names =
              s.names ++ n.bindings.map Binding.name := by
  refine ⟨((sound_start supply).run operations).handsOut.nodup, fun count => ?_⟩
  have handsOut := ((sound_start supply).run (operations.take count)).handsOut
  refine ⟨handsOut.reserved_eq, handsOut.lead_eq, fun operation n next compiles => ?_⟩
  rw [run_take_add_one next, names_step_of_compiles compiles]

section Samples

open Builder

/-- A name with a beginning that ends like another name, a filter, a tree that is refused after
its first literal has been bound, a row of values, and one more name. -/
def mixedRun : List Operation :=
  [ .takeWith "@p1",
    .compile "x => x.a === 1 && x.b < 'u'",
    .compileExpr (arrow (equals (constant .null) (.identifier "x"))),
    .write (.insert ⟨"users", [.integer 7]⟩),
    .take ]

theorem nodup_names_mixedRun :
    ((start .fresh).run mixedRun).names = ["@p1p0", "@p1", "@p2", "@p3", "@p4", "@p5"] ∧
      ["@p1p0", "@p1", "@p2", "@p3", "@p4", "@p5"].Nodup ∧
      ∃ n, (RowFilter.compile "x => x.a === 1 && x.b < 'u'" ⟨"@", 1⟩).result = .ok n ∧
        n.text = "[a] = @p1 AND [b] < @p2" ∧
        ((start .fresh).run (mixedRun.take 2)).names =
          ["@p1p0"] ++ n.bindings.map Binding.name := by
  have read : Compilation.parseInside "x => x.a === 1 && x.b < 'u'" =
      .ok [.expression (arrow (both (equals (field "a") (constant (.integer 1)))
        (less (field "b") (constant (.text "u")))))] :=
    eq_ok_of_toOption (by decide +kernel)
  let n : Condition := .compound
    [ .comparison (.field ⟨"a", none⟩) .equal (.placeholder ⟨"@p1", .integer 1⟩),
      .connective .and,
      .comparison (.field ⟨"b", none⟩) .less (.placeholder ⟨"@p2", .text "u"⟩) ]
  have done : (RowFilter.compile "x => x.a === 1 && x.b < 'u'" ⟨"@", 1⟩).result = .ok n := by
    rw [compile, read]
    rfl
  have names : ((start .fresh).run mixedRun).names =
      ["@p1p0", "@p1", "@p2", "@p3", "@p4", "@p5"] := by decide +kernel
  have first : ((start .fresh).run (mixedRun.take 1)).names = ["@p1p0"] := by decide +kernel
  obtain ⟨nodup, counted⟩ := nodup_names_run .fresh mixedRun
  obtain ⟨_, _, records⟩ := counted 1
  refine ⟨names, names ▸ nodup, n, done, by decide +kernel, ?_⟩
  rw [← first]
  exact records _ n rfl (.compile done)

end Samples

end Session
end RowFilter
