import Arby.Kit.Run
import Arby.Web.EntitySummaryApp
import Arby.Web.Routes

/-! The web server. A request goes to the app that was added first among those whose route matches its
target, and a session answers its requests one after the other. -/

namespace Arby.Web

open Kit

structure Request where
  version : ℕ
  keepAlive : Bool
  target : String
deriving DecidableEq

structure Response where
  status : ℕ
  version : ℕ
  keepAlive : Bool
  body : String
deriving DecidableEq

/-- `need_eof`, of a response whose length `prepare_payload` has set. -/
def Response.needEof (response : Response) : Bool := !response.keepAlive

abbrev Captures := ℕ → Option (List Char)

/-- What an app writes, if anything, and whether the session goes on after that. -/
abbrev HttpApp := Request → Captures → Option Response × Bool

/-- A response to the request, in its version, that keeps alive what the request does. -/
def respond (request : Request) (status : ℕ) (body : String) : Option Response × Bool :=
  let response := { status, version := request.version, keepAlive := request.keepAlive, body }
  (some response, !response.needEof)

def noApp (request : Request) : String :=
  "No app registered that matches " ++ request.target ++ "\r\n"

/-- `http_app_base::operator()`. -/
def httpAppBase : HttpApp := fun request _ => respond request 404 (noApp request)

/-- `entity_summary_app::operator()`, once its request has come to `summary`. -/
def entitySummaryApp (summary : SummaryResponse) : HttpApp := fun request _ =>
  respond request 200 summary.body

/-- `entity_detail_app::operator()`. -/
def entityDetailApp : HttpApp := fun _ _ => (none, false)

/-- `app_entry`, with the expression that its text compiles to. -/
structure AppEntry where
  defn : String
  re : Regex
  app : HttpApp

abbrev AppStore := List AppEntry

def AppStore.addApp (store : AppStore) (entry : AppEntry) : AppStore := store ++ [entry]

/-- The loop over the entries, to the first that matches. -/
def AppStore.find (store : AppStore) (request : Request) : Option (Option Response × Bool) :=
  store.findSome? fun entry =>
    (entry.re.fullMatch request.target.toList).map fun captures => entry.app request captures

/-- What a session does with a request. -/
def AppStore.handle (store : AppStore) (request : Request) : Option Response × Bool :=
  match store.find request with
  | some result => result
  | none =>
    respond request 404 (store.foldl (fun body entry => body ++ (entry.defn ++ "\r\n"))
      (noApp request ++ "Valid route regexes are:\r\n"))

/-- The entries that `check` adds, with the apps `summary` and `detail`. -/
def pages (summary detail : HttpApp) : AppStore :=
  (AppStore.addApp [] ⟨"^/entities/?$", summaryRoute, summary⟩).addApp
    ⟨"^/entities/([0123456789abcdef]\x7b40\x7d)(?:.([0-9]+))?/?$", detailRoute, detail⟩

/-! ### Routing -/

/-- An app that is added later takes no request from one that was there before. -/
theorem AppStore.handle_addApp {store : AppStore} {request : Request}
    (hFound : (store.find request).isSome) (entry : AppEntry) :
    (store.addApp entry).handle request = store.handle request := by
  obtain ⟨result, hFind⟩ := Option.isSome_iff_exists.mp hFound
  have hLater : (store.addApp entry).find request = some result := by
    rw [find, addApp, List.findSome?_append]
    exact Option.or_of_isSome (Option.isSome_of_eq_some hFind) ▸ hFind
  rw [handle, handle, hFind, hLater]

section Pages

variable {summary detail : HttpApp} {request : Request}

theorem handle_summary (target : SummaryTarget) (hText : target.text = request.target.toList) :
    (pages summary detail).handle request = summary request fun _ => none := by
  have hMatch : summaryRoute.fullMatch request.target.toList = some fun _ => none :=
    fullMatch_summaryRoute.mpr ⟨⟨target, hText⟩, rfl⟩
  simp [AppStore.handle, AppStore.find, pages, AppStore.addApp, hMatch]

theorem summaryRoute_none (hTarget : ∀ target : SummaryTarget, target.text ≠ request.target.toList) :
    summaryRoute.fullMatch request.target.toList = none := by
  refine Option.eq_none_iff_forall_ne_some.mpr fun captures hMatch => ?_
  obtain ⟨⟨target, hText⟩, -⟩ := fullMatch_summaryRoute.mp hMatch
  exact hTarget target hText

theorem handle_detail (target : DetailTarget) (hText : target.text = request.target.toList) :
    (pages summary detail).handle request = detail request target.captures := by
  have hSummary : summaryRoute.fullMatch request.target.toList = none :=
    summaryRoute_none fun target' hText' => target'.text_ne target (hText'.trans hText.symm)
  have hMatch : detailRoute.fullMatch request.target.toList = some target.captures :=
    fullMatch_detailRoute.mpr ⟨target, hText, rfl⟩
  simp [AppStore.handle, AppStore.find, pages, AppStore.addApp, hSummary, hMatch]

theorem handle_other (hSummary : ∀ target : SummaryTarget, target.text ≠ request.target.toList)
    (hDetail : ∀ target : DetailTarget, target.text ≠ request.target.toList) :
    (pages summary detail).handle request = respond request 404
      ("No app registered that matches " ++ request.target ++ "\r\n" ++
        "Valid route regexes are:\r\n" ++ ("^/entities/?$" ++ "\r\n") ++
        ("^/entities/([0123456789abcdef]\x7b40\x7d)(?:.([0-9]+))?/?$" ++ "\r\n")) := by
  have hDetail : detailRoute.fullMatch request.target.toList = none := by
    refine Option.eq_none_iff_forall_ne_some.mpr fun captures hMatch => ?_
    obtain ⟨target, hText, -⟩ := fullMatch_detailRoute.mp hMatch
    exact hDetail target hText
  have hFind : (pages summary detail).find request = none := by
    simp [AppStore.find, pages, AppStore.addApp, summaryRoute_none hSummary, hDetail]
  rw [AppStore.handle, hFind]
  rfl

/-- Every target has exactly one of three fates, whatever the apps are: with or without a slash behind
it, `/entities` goes to the summary; a digest, with a number behind it or not, goes to the detail
page, with the digest and the number captured; and anything else is answered with the routes there
are. -/
theorem pages_handle (summary detail : HttpApp) (request : Request) :
    (∀ target : SummaryTarget, target.text = request.target.toList →
      (pages summary detail).handle request = summary request fun _ => none) ∧
    (∀ target : DetailTarget, target.text = request.target.toList →
      (∀ target : SummaryTarget, target.text ≠ request.target.toList) ∧
      (pages summary detail).handle request = detail request target.captures) ∧
    ((∀ target : SummaryTarget, target.text ≠ request.target.toList) →
      (∀ target : DetailTarget, target.text ≠ request.target.toList) →
      (pages summary detail).handle request = respond request 404
        ("No app registered that matches " ++ request.target ++ "\r\n" ++
          "Valid route regexes are:\r\n" ++ ("^/entities/?$" ++ "\r\n") ++
          ("^/entities/([0123456789abcdef]\x7b40\x7d)(?:.([0-9]+))?/?$" ++ "\r\n"))) :=
  ⟨handle_summary, fun target hText =>
    ⟨fun target' hText' => target'.text_ne target (hText'.trans hText.symm),
      handle_detail target hText⟩, handle_other⟩

end Pages

/-! ### Digests -/

/-- The target of the entity with this digest: its text, and its number after a dot. -/
def detailText (digest : Entity.Digest) (number : Option ℕ) : String :=
  "/entities/" ++ Entity.stringify digest ++ number.elim "" fun n => "." ++ n.repr

theorem stringify_digits (digest : Entity.Digest) : (Entity.stringify digest).length = 40 ∧
    ∀ c ∈ (Entity.stringify digest).toList, isHexDigit c = true :=
  (toSha1Digest_ok_iff digest _).mp ⟨digest, toSha1Digest_stringify digest digest⟩

def numberSuffix (n : ℕ) : NumberSuffix where
  separator := '.'
  number := n.repr.toList
  separator_ok := rfl
  number_ne := by
    rw [Nat.toList_repr]
    exact Nat.toDigits_ne_nil
  number_digits c hc := by
    rw [Nat.toList_repr] at hc
    exact Nat.isDigit_of_mem_toDigits (by omega) (by omega) hc

def detailTarget (digest : Entity.Digest) (number : Option ℕ) : DetailTarget where
  word := "/entities/".toList
  digest := (Entity.stringify digest).toList
  suffix := number.map numberSuffix
  slash := []
  word_eq := by decide
  digest_length := String.length_toList.trans (stringify_digits digest).1
  digest_digits := (stringify_digits digest).2
  slash_eq := .inl rfl

theorem text_detailTarget (digest : Entity.Digest) (number : Option ℕ) :
    (detailTarget digest number).text = (detailText digest number).toList := by
  cases number with
  | none =>
    show "/entities/".toList ++ ((Entity.stringify digest).toList ++ ([] ++ [])) =
      ("/entities/" ++ Entity.stringify digest ++ "").toList
    rw [String.toList_append, String.toList_append, List.append_assoc]
    rfl
  | some n =>
    show "/entities/".toList ++ ((Entity.stringify digest).toList ++ ('.' :: n.repr.toList ++ [])) =
      ("/entities/" ++ Entity.stringify digest ++ ("." ++ n.repr)).toList
    rw [String.toList_append, String.toList_append, String.toList_append, List.append_nil,
      List.append_assoc]
    rfl

/-- The page of a digest, with any number, is the detail page, which is given the digest and the number
as they are written. And what it is given for a digest on any target is read by `to_sha1_digest`, as
the digest that is written like it in lower case. -/
theorem digest_pages (summary detail : HttpApp) :
    (∀ digest number version keepAlive,
      ∃ captures, (pages summary detail).handle ⟨version, keepAlive, detailText digest number⟩ =
          detail ⟨version, keepAlive, detailText digest number⟩ captures ∧
        captures 1 = some (Entity.stringify digest).toList ∧
        captures 2 = number.map fun n => n.repr.toList) ∧
    ∀ (request : Request) (target : DetailTarget), target.text = request.target.toList →
      ∀ result, ∃ digest,
      target.captures 1 = some target.digest ∧
      toSha1Digest result (String.ofList target.digest) = .ok digest ∧
      (Entity.stringify digest).toList = target.digest.map Char.toLower := by
  refine ⟨fun digest number version keepAlive => ?_, fun request target hText result => ?_⟩
  · refine ⟨_, handle_detail (detailTarget digest number) (text_detailTarget digest number), rfl, ?_⟩
    cases number <;> rfl
  · obtain ⟨digest, hRead⟩ := (toSha1Digest_ok_iff result (String.ofList target.digest)).mpr
      ⟨by simpa using target.digest_length, by simpa using target.digest_digits⟩
    refine ⟨digest, rfl, hRead, ?_⟩
    rw [stringify_toSha1Digest hRead]
    exact String.toList_map.trans (by rw [String.toList_ofList])

/-! ### Sessions -/

/-- A session: whether its loop goes on, the requests that it has read, each with what the summary app
came to for it, and the responses whose write completed. -/
structure Session where
  isOpen : Bool := true
  served : List (Request × SummaryResponse) := []
  written : List Response := []

/-- A request comes before the timeout, and its response is `delivered` or fails to be written; or the
timeout comes first, as it does after a failed read. -/
inductive SessionOp
  | request (request : Request) (summary : SummaryResponse) (delivered : Bool)
  | timeout

/-- A turn of the loop. -/
def Session.step (st : Session) : SessionOp → Session
  | .request request summary delivered =>
    if st.isOpen then
      let result := (pages (entitySummaryApp summary) entityDetailApp).handle request
      let served := st.served ++ [(request, summary)]
      match result.1 with
      | none => { st with served, isOpen := result.2 }
      | some response =>
        if delivered then
          { st with served, written := st.written ++ [response], isOpen := result.2 }
        else { st with served, isOpen := false }
    else st
  | .timeout => { st with isOpen := false }

/-- The response to a request that is not for a detail page. -/
structure Answers (read : Request × SummaryResponse) (response : Response) : Prop where
  page : ∀ target : DetailTarget, target.text ≠ read.1.target.toList
  version : response.version = read.1.version
  keepAlive : response.keepAlive = read.1.keepAlive
  summary : ∀ target : SummaryTarget, target.text = read.1.target.toList →
    response.status = 200 ∧ response.body = read.2.body
  other : (∀ target : SummaryTarget, target.text ≠ read.1.target.toList) → response.status = 404

/-- `kept` are the requests after which the session went on, with their responses, and `last` is the
one after which it did not. -/
structure Session.Accounted (st : Session) (kept : List (Request × SummaryResponse))
    (last : Option (Request × SummaryResponse)) (responses closing : List Response) : Prop where
  served : st.served = kept ++ last.toList
  written : st.written = responses ++ closing
  answers : List.Forall₂ Answers kept responses
  alive : ∀ read ∈ kept, read.1.keepAlive = true
  closing : closing = [] ∨ ∃ read response, last = some read ∧ closing = [response] ∧
    Answers read response ∧ read.1.keepAlive = false
  goesOn : st.isOpen = true → last = none

/-- What a session does with a request. -/
theorem handle_cases (request : Request) (summary : SummaryResponse) :
    (pages (entitySummaryApp summary) entityDetailApp).handle request = (none, false) ∨
      ∃ response, Answers (request, summary) response ∧
        (pages (entitySummaryApp summary) entityDetailApp).handle request =
          (some response, request.keepAlive) := by
  by_cases hDetail : ∃ target : DetailTarget, target.text = request.target.toList
  · obtain ⟨target, hText⟩ := hDetail
    exact .inl (handle_detail target hText)
  · have hDetail : ∀ target : DetailTarget, target.text ≠ request.target.toList :=
      fun target hText => hDetail ⟨target, hText⟩
    have hRespond : ∀ status body, respond request status body =
        (some ⟨status, request.version, request.keepAlive, body⟩, request.keepAlive) := by
      simp [respond, Response.needEof]
    refine .inr ?_
    by_cases hSummary : ∃ target : SummaryTarget, target.text = request.target.toList
    · obtain ⟨target, hText⟩ := hSummary
      refine ⟨_, ⟨hDetail, rfl, rfl, fun _ _ => ⟨rfl, rfl⟩, fun hOther => ?_⟩,
        (handle_summary target hText).trans (hRespond 200 summary.body)⟩
      exact absurd hText (hOther target)
    · have hSummary : ∀ target : SummaryTarget, target.text ≠ request.target.toList :=
        fun target hText => hSummary ⟨target, hText⟩
      refine ⟨_, ⟨hDetail, rfl, rfl, fun target hText => ?_, fun _ => rfl⟩,
        (handle_other hSummary hDetail).trans (hRespond 404 _)⟩
      exact absurd hText (hSummary target)

theorem Session.Accounted.step {st : Session} {kept : List (Request × SummaryResponse)}
    {last : Option (Request × SummaryResponse)} {responses closing : List Response}
    (h : st.Accounted kept last responses closing) (op : SessionOp) :
    ∃ kept last responses closing, (st.step op).Accounted kept last responses closing := by
  cases op with
  | timeout => exact ⟨kept, last, responses, closing, h.served, h.written, h.answers, h.alive,
      h.closing, nofun⟩
  | request request summary delivered =>
    rw [Session.step]
    split
    · rename_i hOpen
      obtain rfl := h.goesOn hOpen
      have hServed : st.served = kept := h.served.trans (List.append_nil _)
      have hClosing : closing = [] := by
        rcases h.closing with hNone | ⟨_, _, hLast, -⟩
        · exact hNone
        · cases hLast
      have hWritten : st.written = responses := by
        rw [h.written, hClosing, List.append_nil]
      obtain hHandle | ⟨response, hAnswers, hHandle⟩ := handle_cases request summary
      · simp only [hHandle]
        refine ⟨kept, some (request, summary), responses, [], ?_, ?_, h.answers, h.alive, .inl rfl,
          nofun⟩
        · rw [hServed]
          rfl
        · rw [hWritten, List.append_nil]
      · simp only [hHandle]
        cases delivered with
        | false =>
          refine ⟨kept, some (request, summary), responses, [], ?_, ?_, h.answers, h.alive,
            .inl rfl, nofun⟩
          · rw [if_neg Bool.false_ne_true, hServed]
            rfl
          · rw [if_neg Bool.false_ne_true, hWritten, List.append_nil]
        | true =>
          rw [if_pos rfl]
          cases hAlive : request.keepAlive with
          | true =>
            refine ⟨kept ++ [(request, summary)], none, responses ++ [response], [], ?_, ?_, ?_, ?_,
              .inl rfl, fun _ => rfl⟩
            · rw [hServed, Option.toList_none, List.append_nil]
            · rw [hWritten, List.append_nil]
            · exact List.rel_append h.answers (.cons hAnswers .nil)
            · intro read hMem
              rcases List.mem_append.mp hMem with hMem | hMem
              · exact h.alive read hMem
              · rw [List.mem_singleton.mp hMem, hAlive]
          | false =>
            refine ⟨kept, some (request, summary), responses, [response], ?_, ?_, h.answers,
              h.alive, .inr ⟨(request, summary), response, rfl, rfl, hAnswers, hAlive⟩, nofun⟩
            · rw [hServed]
              rfl
            · rw [hWritten]
    · exact ⟨kept, last, responses, closing, h⟩

/-- In every session each request is answered before the next one is read, in its version, with the
summary as it then is for `/entities` and with status 404 otherwise, as long as each is to be kept
alive and none is for a detail page. The first one that is not so, or whose response fails to be
written, is the last that is read; a detail page is never answered. -/
theorem accounted_run (ops : List SessionOp) :
    ∃ kept last responses closing,
      (ops.foldl Session.step {}).Accounted kept last responses closing := by
  refine run_invariant (I := fun st : Session => ∃ kept last responses closing,
    st.Accounted kept last responses closing) ?_ ?_ (run_always _ ({} : Session) ops)
  · rintro st op st' ⟨kept, last, responses, closing, h⟩ hStep
    obtain rfl := Option.some.inj hStep
    exact h.step op
  · exact ⟨[], none, [], [], rfl, rfl, .nil, nofun, .inl rfl, fun _ => rfl⟩

end Arby.Web
