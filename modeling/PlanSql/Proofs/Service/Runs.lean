import Mathlib.Data.List.Perm.Basic
import PlanSql.Proofs.Service.Counters
import PlanSql.Service.Routing

/-!
# Runs of the service

A run answers requests for SQL one after the other. What was counted before has no part in an
answer, so each request gets the answer that a service just started would give it; and the counts
after a run are those of its requests, each counted once under the dialect that it was answered for
and the outcome that its response tells. In what order the requests came cannot be seen afterwards.
HTTP requests that hand in such a request are answered as it is, and all others leave no trace.
-/
namespace PlanSql.Service

namespace Response

/-- What a response says its request came to: that it has SQL, or the code of an error. -/
def outcome? (r : Response) : Option String :=
  if r.status = .ok then some "ok"
  else match r.content with
    | .json (.object members) =>
      match members.lookup "code" with
      | some (.string code) => some code
      | _ => none
    | _ => none

/-- The response without the id of its request. -/
def anonymous (r : Response) : Response :=
  match r.content with
  | .json (.object members) => .json r.status (.object (members.filter fun m => m.1 ≠ "request_id"))
  | _ => r

end Response

namespace Verdict

variable {α : Type}

/-- The dialect that a request was answered for. -/
def dialect? : Verdict α → Option Dialect
  | .unknownDialect _ => none
  | .settled d _ => some d

theorem series?_eq_some_iff (v : Verdict α) (id : Json) (members : α → List (String × Json))
    {d : Dialect} {o : String} :
    v.series? = some ⟨d, o⟩ ↔ v.dialect? = some d ∧ (v.response id members).outcome? = some o := by
  cases v with
  | unknownDialect e => simp [series?, dialect?]
  | settled d' result =>
    cases result with
    | ok a => simp [series?, dialect?, response, Response.outcome?, Response.json]
    | error e =>
      have hstatus : errorStatus e ≠ .ok := by unfold errorStatus; split <;> simp
      simp [series?, dialect?, response, Response.outcome?, Response.json, errorBody, hstatus]

theorem anonymous_response (v : Verdict α) (id id' : Json) (members : α → List (String × Json)) :
    (v.response id members).anonymous = (v.response id' members).anonymous := by
  cases v with
  | unknownDialect e => rfl
  | settled d result => cases result <;> rfl

end Verdict

/-- A request for SQL. -/
inductive Call where
  | compile (request : CompileRequest)
  | render (request : DdlRequest)

/-- The request for SQL that an HTTP request hands in, if it does and its body can be read. -/
def HttpRequest.call? (r : HttpRequest) : Option Call :=
  match Route.ofTarget? r.target with
  | some .compile =>
    if r.method = "POST" then (r.decode CompileRequest.ofText).toOption.map .compile else none
  | some .ddl =>
    if r.method = "POST" then (r.decode DdlRequest.ofText).toOption.map .render else none
  | _ => none

/-- What is asked for; the two are counted apart. -/
inductive Endpoint where
  | compile
  | render
  deriving DecidableEq

namespace Call

def endpoint : Call → Endpoint
  | .compile _ => .compile
  | .render _ => .render

/-- The dialect that a request names. -/
def dialect : Call → Option String
  | .compile r => r.dialect
  | .render r => r.dialect

end Call

namespace Setup

/-- The dialect that a request is for, if it is known. -/
def resolved? (s : Setup) (call : Call) : Option Dialect := (s.dialect call.dialect).toOption

/-- The series that a request is counted in. -/
def series? (s : Setup) : Call → Option Series
  | .compile r => (s.judgePlan r).series?
  | .render r => (s.judgeStatement r).series?

theorem dialect?_judge {α β : Type} (s : Setup) (compile : Target → α → Except CompileError β)
    (r : Request α) : (s.judge compile r).dialect? = (s.dialect r.dialect).toOption := by
  unfold judge
  cases s.dialect r.dialect <;> rfl

theorem series?_eq_none {s : Setup} {call : Call} (h : s.resolved? call = none) :
    s.series? call = none := by
  have hjudge : ∀ {α β : Type} (compile : Target → α → Except CompileError β) (r : Request α),
      (s.dialect r.dialect).toOption = none → (s.judge compile r).series? = none := by
    intro α β compile r hr
    unfold judge
    cases hd : s.dialect r.dialect with
    | error e => rfl
    | ok d => simp [hd, Except.toOption] at hr
  cases call with
  | compile r => exact hjudge s.compilePlan r h
  | render r => exact hjudge s.renderStatement r h

end Setup

def Metrics.counter (m : Metrics) : Endpoint → Counter
  | .compile => m.compilations
  | .render => m.statements

theorem Metrics.ext_counter {m m' : Metrics} (h : ∀ e, m.counter e = m'.counter e) : m = m' := by
  obtain ⟨c, s⟩ := m
  obtain ⟨c', s'⟩ := m'
  obtain rfl : c = c' := h .compile
  obtain rfl : s = s' := h .render
  rfl

namespace State

theorem ext_setup_metrics {s s' : State} (hs : s.setup = s'.setup) (hm : s.metrics = s'.metrics) :
    s = s' := by
  obtain ⟨setup, metrics⟩ := s
  obtain rfl : setup = s'.setup := hs
  obtain rfl : metrics = s'.metrics := hm
  rfl

/-- The response to a request that goes by `id`, and the service after it. -/
def serve (id : Json) (s : State) : Call → Response × State
  | .compile r => s.compile id r
  | .render r => s.render id r

/-- The responses to requests in their order, and the service after the last. -/
def run (s : State) : List (Json × Call) → List Response × State
  | [] => ([], s)
  | (id, call) :: rest =>
    let (response, s) := s.serve id call
    let (responses, s) := s.run rest
    (response :: responses, s)

section Serve

variable (id : Json) (s : State) (call : Call)

theorem setup_serve : (s.serve id call).2.setup = s.setup := by
  cases call <;> rfl

/-- What was counted before has no part in a response. -/
theorem response_serve {s' : State} (h : s'.setup = s.setup) :
    (s'.serve id call).1 = (s.serve id call).1 := by
  cases call <;> simp [serve, compile, render, h]

theorem anonymous_serve (id' : Json) :
    (s.serve id call).1.anonymous = (s.serve id' call).1.anonymous := by
  cases call with
  | compile r => exact Verdict.anonymous_response _ id id' _
  | render r => exact Verdict.anonymous_response _ id id' _

theorem counter_serve (e : Endpoint) :
    (s.serve id call).2.metrics.counter e =
      if call.endpoint = e then (s.metrics.counter e).record (s.setup.series? call)
      else s.metrics.counter e := by
  cases call <;> cases e <;> rfl

/-- A request is counted under its dialect and the outcome that its response tells. -/
theorem series?_eq_some_iff {d : Dialect} {o : String} :
    s.setup.series? call = some ⟨d, o⟩ ↔
      s.setup.resolved? call = some d ∧ (s.serve id call).1.outcome? = some o := by
  cases call with
  | compile r =>
    refine (Verdict.series?_eq_some_iff _ id CompiledPlan.members).trans ?_
    rw [Setup.judgePlan, Setup.dialect?_judge]
    rfl
  | render r =>
    refine (Verdict.series?_eq_some_iff _ id fun sql => [("sql", .string sql)]).trans ?_
    rw [Setup.judgeStatement, Setup.dialect?_judge]
    rfl

theorem serve_of_resolved?_eq_none (h : s.setup.resolved? call = none) :
    (s.serve id call).2 = s := by
  have hnone := Setup.series?_eq_none h
  cases call with
  | compile r =>
    have hjudge : (s.setup.judgePlan r).series? = none := hnone
    simp [serve, compile, hjudge, Counter.record]
  | render r =>
    have hjudge : (s.setup.judgeStatement r).series? = none := hnone
    simp [serve, render, hjudge, Counter.record]

end Serve

section Respond

variable {id : Json} {s : State} {r : HttpRequest} {α : Type} {ofText : String → Except Json.Fault α}

theorem submit_of_decode {answer : State → α → Response × State} {a : α}
    (h : (r.decode ofText).toOption = some a) : s.submit r ofText answer = answer s a := by
  unfold submit
  cases hd : r.decode ofText with
  | error status => simp [hd, Except.toOption] at h
  | ok a' =>
    obtain rfl : a' = a := by simpa [hd, Except.toOption] using h
    rfl

theorem submit_of_decode_eq_none {answer : State → α → Response × State}
    (h : (r.decode ofText).toOption = none) : (s.submit r ofText answer).2 = s := by
  unfold submit
  cases hd : r.decode ofText with
  | error status => rfl
  | ok a => simp [hd, Except.toOption] at h

/-- An HTTP request that hands in a request for SQL is answered as this request is. -/
theorem respond_of_call? {call : Call} (h : r.call? = some call) :
    s.respond id r = s.serve id call := by
  unfold HttpRequest.call? at h
  unfold respond
  cases hroute : Route.ofTarget? r.target with
  | none => simp [hroute] at h
  | some route =>
    cases route with
    | compile =>
      obtain ⟨hmethod, request, hd, rfl⟩ : r.method = "POST" ∧ ∃ request,
          (r.decode CompileRequest.ofText).toOption = some request ∧ .compile request = call := by
        simpa [hroute] using h
      simp [Route.allows, Route.takesBody, hmethod, submit_of_decode hd, serve]
    | ddl =>
      obtain ⟨hmethod, request, hd, rfl⟩ : r.method = "POST" ∧ ∃ request,
          (r.decode DdlRequest.ofText).toOption = some request ∧ .render request = call := by
        simpa [hroute] using h
      simp [Route.allows, Route.takesBody, hmethod, submit_of_decode hd, serve]
    | dialects | health | metrics => simp [hroute] at h

/-- Any other HTTP request leaves the service as it was. -/
theorem respond_of_call?_eq_none (h : r.call? = none) : (s.respond id r).2 = s := by
  unfold HttpRequest.call? at h
  unfold respond
  cases hroute : Route.ofTarget? r.target with
  | none => rfl
  | some route =>
    cases hallows : route.allows r.method with
    | false => simp [hallows]
    | true =>
      cases route with
      | compile =>
        have hmethod : r.method = "POST" := by
          simpa [Route.allows, Route.takesBody] using hallows
        have hd : (r.decode CompileRequest.ofText).toOption = none := by
          simpa [hroute, hmethod] using h
        simp [hallows, submit_of_decode_eq_none hd]
      | ddl =>
        have hmethod : r.method = "POST" := by
          simpa [Route.allows, Route.takesBody] using hallows
        have hd : (r.decode DdlRequest.ofText).toOption = none := by
          simpa [hroute, hmethod] using h
        simp [hallows, submit_of_decode_eq_none hd]
      | dialects | health | metrics => simp [hallows]

end Respond

/-- All counters of the service are listed in order. -/
def Ordered (s : State) : Prop := ∀ e, (s.metrics.counter e).Listed

theorem ordered_start (c : Config) : (start c).Ordered := by
  intro e
  cases e <;> exact Counter.listed_nil

theorem Ordered.serve {s : State} (h : s.Ordered) (id : Json) (call : Call) :
    (s.serve id call).2.Ordered := by
  intro e
  rw [counter_serve]
  split
  · exact (h e).record _
  · exact h e

section Run

variable (s : State) (calls : List (Json × Call))

theorem run_cons (x : Json × Call) : s.run (x :: calls) =
    ((s.serve x.1 x.2).1 :: ((s.serve x.1 x.2).2.run calls).1,
      ((s.serve x.1 x.2).2.run calls).2) := rfl

theorem setup_run : (s.run calls).2.setup = s.setup := by
  induction calls generalizing s with
  | nil => rfl
  | cons x rest ih => rw [run_cons, ih, setup_serve]

/-- Each request of a run gets the response that it would get as the only one. -/
theorem responses_run : (s.run calls).1 = calls.map fun x => (s.serve x.1 x.2).1 := by
  induction calls generalizing s with
  | nil => rfl
  | cons x rest ih =>
    rw [run_cons, ih, List.map_cons]
    refine congrArg _ (List.map_congr_left fun y _ => ?_)
    exact response_serve y.1 s y.2 (setup_serve x.1 s x.2)

theorem Ordered.run {s : State} (h : s.Ordered) (calls : List (Json × Call)) :
    (s.run calls).2.Ordered := by
  induction calls generalizing s with
  | nil => exact h
  | cons x rest ih => exact ih (h.serve x.1 x.2)

/-- A run adds to each count the number of its requests that are counted there. -/
theorem count_run (e : Endpoint) (x : Series) :
    ((s.run calls).2.metrics.counter e).count x = (s.metrics.counter e).count x +
      (calls.map Prod.snd).countP fun call =>
        call.endpoint = e && s.setup.series? call = some x := by
  induction calls generalizing s with
  | nil => rfl
  | cons y rest ih =>
    have hstep : ((s.serve y.1 y.2).2.metrics.counter e).count x = (s.metrics.counter e).count x +
        if y.2.endpoint = e && s.setup.series? y.2 = some x then 1 else 0 := by
      rw [counter_serve]
      by_cases he : y.2.endpoint = e
      · rw [if_pos he]
        cases hs : s.setup.series? y.2 with
        | none => simp [Counter.record]
        | some x' => simp [Counter.record, Counter.count_increment, he]
      · simp [he]
    rw [run_cons, ih, hstep, setup_serve, List.map_cons, List.countP_cons]
    omega

end Run

/-- The response to a request, apart from its id, of a service that has counted nothing. -/
def reply (c : Config) (call : Call) : Response := ((start c).serve .null call).1.anonymous

/-- A run of the service answers each request by itself and counts it once: the responses depend on
nothing but the configuration and their requests, the counts are those of the requests by dialect
and outcome, a request for an unknown dialect leaves the service as it was, and the order of the
requests leaves no trace. -/
theorem run_counts (c : Config) (calls : List (Json × Call)) :
    ((start c).run calls).1.map Response.anonymous = calls.map (fun x => reply c x.2) ∧
      (∀ e d o, (((start c).run calls).2.metrics.counter e).count ⟨d, o⟩ =
        (calls.zip ((start c).run calls).1).countP fun (x, response) =>
          x.2.endpoint = e && (Setup.ofConfig c).resolved? x.2 = some d &&
            response.outcome? = some o) ∧
      (∀ id call before, (Setup.ofConfig c).resolved? call = none →
        ((((start c).run before).2).serve id call).2 = ((start c).run before).2) ∧
      ∀ calls', (calls'.map Prod.snd).Perm (calls.map Prod.snd) →
        ((start c).run calls').2 = ((start c).run calls).2 := by
  refine ⟨?_, fun e d o => ?_, fun id call before h => ?_, fun calls' hperm => ?_⟩
  · rw [responses_run, List.map_map]
    exact List.map_congr_left fun x _ => anonymous_serve x.1 (start c) x.2 .null
  · have hzero : ((start c).metrics.counter e).count ⟨d, o⟩ = 0 := by cases e <;> rfl
    rw [count_run, responses_run, hzero, Nat.zero_add, ← List.map_prod_left_eq_zip,
      List.countP_map, List.countP_map]
    refine List.countP_congr fun x _ => ?_
    have hseries := series?_eq_some_iff x.1 (start c) x.2 (d := d) (o := o)
    simp only [Function.comp_apply, Bool.and_eq_true, decide_eq_true_eq, hseries, and_assoc]
    rfl
  · exact serve_of_resolved?_eq_none id _ call (setup_run (start c) before ▸ h)
  · have hmetrics : ((start c).run calls').2.metrics = ((start c).run calls).2.metrics := by
      refine Metrics.ext_counter fun e => Counter.Listed.ext ((ordered_start c).run calls' e)
        ((ordered_start c).run calls e) fun x => ?_
      rw [count_run, count_run, hperm.countP_eq]
    have hsetup := (setup_run (start c) calls').trans (setup_run (start c) calls).symm
    exact ext_setup_metrics hsetup hmetrics

/-- A request for a dialect that is not known before and after one for the default dialect. -/
theorem run_counts_unknownDialect :
    let unknown : Json × Call := (.string "1", .render ⟨.renameTable "a" "b", some "oracle"⟩)
    let known : Json × Call := (.string "2", .render ⟨.renameTable "a" "b", none⟩)
    let after (calls : List (Json × Call)) : State := ((start .default).run calls).2
    (Setup.ofConfig .default).resolved? unknown.2 = none ∧
      (((after [known]).serve unknown.1 unknown.2).2 = after [known]) ∧
      ((after [unknown, known]).metrics.counter .render).count ⟨.duckdb, "ok"⟩ = 1 ∧
      after [known, unknown] = after [unknown, known] :=
  have hunknown : (Setup.ofConfig .default).resolved?
      (.render ⟨.renameTable "a" "b", some "oracle"⟩) = none := by decide +kernel
  ⟨hunknown, (run_counts .default []).2.2.1 _ _ _ hunknown,
    ((run_counts .default _).2.1 .render .duckdb "ok").trans (by decide +kernel),
    (run_counts .default _).2.2.2 _ (.swap _ _ _)⟩

end State

end PlanSql.Service
