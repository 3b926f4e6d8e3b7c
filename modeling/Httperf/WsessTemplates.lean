-- What `parse_config` has built: the lists that the templates lead to. The cursors `sptr`,
-- `current_burst` and `current_req` stand at the ends of lists that are still growing; the finished
-- ones are never touched again.
import Httperf.WsessConfig

namespace Httperf.WsessLog

open Arena

variable {τ : Type}

/-! ## Lists of requests and bursts -/

/-- The burst counts these requests, and its list is read as them. -/
structure BurstData.Holds (think_time : τ) (reqs : List (Cell ReqData)) (b : BurstData τ)
    (rs : List ReqData) : Prop where
  num_reqs : b.num_reqs = rs.length
  user_think_time : b.user_think_time = think_time
  req_list : Arena.Reads reqs (some b.req_list) rs

/-- The template counts the requests of these bursts, and its list is read as them. -/
structure SessionTemplate.Holds (think_time : τ) (reqs : List (Cell ReqData))
    (bursts : List (Cell (BurstData τ))) (t : SessionTemplate) (session : List (List ReqData)) :
    Prop where
  total_num_reqs : t.total_num_reqs = (session.map List.length).sum
  burst_list : ∃ bs, Arena.Reads bursts t.current_burst bs ∧
    List.Forall₂ (BurstData.Holds think_time reqs) bs session

/-- The template `i` holds the session. -/
def Parser.Holds (think_time : τ) (s : Parser τ) (i : Nat) (session : List (List ReqData)) : Prop :=
  (s.session_templates i).Holds think_time s.reqs s.bursts session

theorem BurstData.Holds.append {think_time : τ} {reqs : List (Cell ReqData)} {b : BurstData τ}
    {rs : List ReqData} (h : b.Holds think_time reqs rs) (cells : List (Cell ReqData)) :
    b.Holds think_time (reqs ++ cells) rs :=
  ⟨h.num_reqs, h.user_think_time, h.req_list.append cells⟩

theorem bursts_append {think_time : τ} {reqs : List (Cell ReqData)} {bs : List (BurstData τ)}
    {session : List (List ReqData)} (h : List.Forall₂ (BurstData.Holds think_time reqs) bs session)
    (cells : List (Cell ReqData)) :
    List.Forall₂ (BurstData.Holds think_time (reqs ++ cells)) bs session :=
  h.imp fun _ _ hb => hb.append cells

theorem SessionTemplate.Holds.append {think_time : τ} {reqs : List (Cell ReqData)}
    {bursts : List (Cell (BurstData τ))} {t : SessionTemplate} {session : List (List ReqData)}
    (h : t.Holds think_time reqs bursts session) (cells : List (Cell ReqData))
    (cells' : List (Cell (BurstData τ))) :
    t.Holds think_time (reqs ++ cells) (bursts ++ cells') session := by
  obtain ⟨bs, hread, hbs⟩ := h.burst_list
  exact ⟨h.total_num_reqs, bs, hread.append cells', bursts_append hbs cells⟩

/-! ## The two places where the parser can stand -/

/-- Before a session: the templates of the sessions `past` are finished, and the next one is
zero. -/
structure Between (think_time : τ) (past : List (List (List ReqData))) (s : Parser τ) : Prop where
  sptr : s.sptr = past.length
  num_templates : s.num_templates = past.length
  zero : ∀ i, past.length ≤ i → s.session_templates i = ⟨0, none, none⟩
  holds : ∀ i session, past[i]? = some session → s.Holds think_time i session

/-- The cells of the lists that are growing. `rfront` and `bfront` are the cells before them, and
`bs` are the finished bursts of the session. -/
structure Growing (think_time : τ) (past : List (List (List ReqData))) (done : List (List ReqData))
    (cur : List ReqData) (last : ReqData) (rfront : List (Cell ReqData))
    (bfront : List (Cell (BurstData τ))) (bs : List (BurstData τ)) (s : Parser τ) : Prop where
  reqs : s.reqs = grown rfront cur last
  bursts : s.bursts = grown bfront bs ⟨cur.length + 1, think_time, rfront.length⟩
  current_burst : s.current_burst = some (bfront.length + bs.length)
  template : s.session_templates past.length =
    ⟨(done.map List.length).sum + (cur.length + 1), some bfront.length,
      some (rfront.length + cur.length)⟩
  done : List.Forall₂ (BurstData.Holds think_time rfront) bs done
  past : ∀ i session, past[i]? = some session →
    (s.session_templates i).Holds think_time rfront bfront session

/-- In a session, behind its bursts `done` and the requests `cur` and `last` of the next one. -/
structure InSession (think_time : τ) (past : List (List (List ReqData)))
    (done : List (List ReqData)) (cur : List ReqData) (last : ReqData) (s : Parser τ) : Prop where
  sptr : s.sptr = past.length
  num_templates : s.num_templates = past.length + 1
  zero : ∀ i, past.length < i → s.session_templates i = ⟨0, none, none⟩
  growing : ∃ rfront bfront bs, Growing think_time past done cur last rfront bfront bs s

section
variable {think_time : τ} {past : List (List (List ReqData))} {done : List (List ReqData)}
  {cur : List ReqData} {last : ReqData} {s : Parser τ}

theorem InSession.fp (h : InSession think_time past done cur last s) (fp : List Byte) :
    InSession think_time past done cur last { s with fp } := by
  obtain ⟨rfront, bfront, bs, hg⟩ := h.growing
  exact ⟨h.sptr, h.num_templates, h.zero, rfront, bfront, bs,
    ⟨hg.reqs, hg.bursts, hg.current_burst, hg.template, hg.done, hg.past⟩⟩

theorem Between.fp (h : Between think_time past s) (fp : List Byte) :
    Between think_time past { s with fp } :=
  ⟨h.sptr, h.num_templates, h.zero, h.holds⟩

/-- The session as it stands is held by its template. -/
theorem InSession.holds (h : InSession think_time past done cur last s) (i : Nat)
    {session : List (List ReqData)} (hi : (past ++ [done ++ [cur ++ [last]]])[i]? = some session) :
    s.Holds think_time i session := by
  obtain ⟨rfront, bfront, bs, hg⟩ := h.growing
  unfold Parser.Holds
  rcases Nat.lt_trichotomy i past.length with hlt | rfl | hgt
  · rw [List.getElem?_append_left hlt] at hi
    have hold := hg.past i session hi
    rw [hg.reqs, hg.bursts]
    unfold grown
    rw [List.append_assoc, List.append_assoc]
    exact hold.append _ _
  · rw [List.getElem?_append_right (Nat.le_refl _), Nat.sub_self] at hi
    obtain rfl := Option.some.inj hi
    rw [hg.template, hg.reqs, hg.bursts]
    refine ⟨?_, _, reads_grown bfront bs _, ?_⟩
    · simp
    · refine List.rel_append ?_ (.cons ⟨by simp, rfl, reads_grown rfront cur last⟩ .nil)
      unfold grown
      rw [List.append_assoc]
      exact bursts_append hg.done _
  · rw [List.getElem?_eq_none (by simp; omega)] at hi
    cases hi

/-! ## What the steps of the parser do to them -/

/-- A blank line ends the session. -/
theorem InSession.end_session (h : InSession think_time past done cur last s)
    (hroom : past.length < MAX_SESSION_TEMPLATES) :
    ∃ s', s.end_session = .ok s' ∧ s'.fp = s.fp ∧
      Between think_time (past ++ [done ++ [cur ++ [last]]]) s' := by
  obtain ⟨rfront, bfront, bs, hg⟩ := h.growing
  refine ⟨{ s with sptr := s.sptr + 1 }, ?_, rfl, ?_⟩
  · unfold Parser.end_session
    rw [h.sptr, hg.template, if_neg (by omega), if_pos (by simp)]
  · refine ⟨by simp [h.sptr], by simp [h.num_templates], fun i hi => ?_,
      fun i session hi => h.holds i hi⟩
    rw [List.length_append, List.length_singleton] at hi
    exact h.zero i hi

/-- A blank line before a session is skipped. -/
theorem Between.end_session (h : Between think_time past s)
    (hroom : past.length < MAX_SESSION_TEMPLATES) :
    s.end_session = .ok s := by
  unfold Parser.end_session
  rw [h.sptr, h.zero _ (Nat.le_refl _), if_neg (by omega), if_neg (by simp)]

/-- The counters of the session and of the burst go up by one. -/
theorem count_request_eq {s : Parser τ} {bfront : List (Cell (BurstData τ))}
    {bs : List (BurstData τ)} {b : BurstData τ} (hbursts : s.bursts = grown bfront bs b)
    (hburst : s.current_burst = some (bfront.length + bs.length)) (reqptr : Nat) :
    s.count_request reqptr = .ok { s with
      bursts := grown bfront bs { b with num_reqs := b.num_reqs + 1 }
      session_templates := Function.update s.session_templates s.sptr
        { s.session_templates s.sptr with
          total_num_reqs := (s.session_templates s.sptr).total_num_reqs + 1
          current_req := some reqptr } } := by
  unfold Parser.count_request
  rw [hburst, hbursts]
  dsimp only
  rw [modify_grown bfront bs b fun d => { d with num_reqs := d.num_reqs + 1 }]

/-- The first request of a session. -/
theorem Between.add_request (h : Between think_time past s)
    (hroom : past.length < MAX_SESSION_TEMPLATES) (line uri : List Byte) :
    ∃ s', s.add_request think_time line uri = .ok s' ∧ s'.fp = s.fp ∧
      InSession think_time past [] [] (new_request uri) s' := by
  have hzero := h.zero _ (Nat.le_refl _)
  have hlink : s.link_request think_time line uri = .ok { s with
      reqs := s.reqs ++ [⟨none, new_request uri⟩]
      bursts := s.bursts ++ [⟨none, new_burst think_time s.reqs.length⟩]
      session_templates := Function.update s.session_templates s.sptr
        { s.session_templates s.sptr with current_burst := some s.bursts.length }
      num_templates := s.num_templates + 1
      current_burst := some s.bursts.length } := by
    unfold Parser.link_request
    rw [h.sptr, hzero]
    dsimp only
    rw [if_neg (by rw [h.num_templates]; omega)]
  unfold Parser.add_request
  rw [if_neg (by rw [h.sptr]; omega), hlink]
  dsimp only
  rw [count_request_eq (grown_new ..) rfl]
  refine ⟨_, rfl, rfl, h.sptr, by simp [h.num_templates], fun i hi => ?_, s.reqs, s.bursts, [],
    grown_new .., rfl, rfl, ?_, .nil, fun i session hi => ?_⟩
  · dsimp only
    rw [h.sptr, Function.update_of_ne (by omega), Function.update_of_ne (by omega)]
    exact h.zero i (Nat.le_of_lt hi)
  · dsimp only
    rw [h.sptr, Function.update_self, Function.update_self, hzero]
    rfl
  · have hlt := (List.getElem?_eq_some_iff.mp hi).1
    dsimp only
    rw [h.sptr, Function.update_of_ne (by omega), Function.update_of_ne (by omega)]
    exact h.holds i session hi

/-- The first request of the next burst. -/
theorem InSession.add_burst (h : InSession think_time past done cur last s)
    (hroom : past.length < MAX_SESSION_TEMPLATES) {line : List Byte} (uri : List Byte)
    (hline : isspace (line.headD 0) = false) :
    ∃ s', s.add_request think_time line uri = .ok s' ∧ s'.fp = s.fp ∧
      InSession think_time past (done ++ [cur ++ [last]]) [] (new_request uri) s' := by
  obtain ⟨rfront, bfront, bs, hg⟩ := h.growing
  have hlen : s.bursts.length = bfront.length + bs.length + 1 := by rw [hg.bursts, grown_length]
  have hlink : s.link_request think_time line uri = .ok { s with
      reqs := s.reqs ++ [⟨none, new_request uri⟩]
      bursts := grown bfront (bs ++ [⟨cur.length + 1, think_time, rfront.length⟩])
        (new_burst think_time s.reqs.length)
      current_burst := some s.bursts.length } := by
    unfold Parser.link_request
    rw [h.sptr, hg.template]
    dsimp only
    rw [hline, if_pos (by decide), hg.current_burst]
    dsimp only
    rw [hlen, hg.bursts, link_grown]
  unfold Parser.add_request
  rw [if_neg (by rw [h.sptr]; omega), hlink]
  dsimp only
  rw [count_request_eq rfl (by rw [hlen]; simp [Nat.add_assoc])]
  refine ⟨_, rfl, rfl, h.sptr, h.num_templates, fun i hi => ?_, s.reqs, bfront, _, grown_new ..,
    rfl, ?_, ?_, ?_, fun i session hi => ?_⟩
  · dsimp only
    rw [h.sptr, Function.update_of_ne (by omega)]
    exact h.zero i hi
  · dsimp only
    rw [hlen, List.length_append, List.length_singleton, Nat.add_assoc]
  · dsimp only
    rw [h.sptr, Function.update_self, hg.template]
    simp
  · refine List.rel_append ?_ (.cons ⟨by simp, rfl, ?_⟩ .nil)
    · rw [hg.reqs]
      unfold grown
      rw [List.append_assoc]
      exact bursts_append hg.done _
    · rw [hg.reqs]
      exact reads_grown ..
  · have hlt := (List.getElem?_eq_some_iff.mp hi).1
    dsimp only
    rw [h.sptr, Function.update_of_ne (by omega), hg.reqs]
    unfold grown
    rw [List.append_assoc]
    have hold := (hg.past i session hi).append (linked rfront.length cur ++ [⟨none, last⟩]) []
    rwa [List.append_nil] at hold

/-- The next request of the burst. -/
theorem InSession.add_request (h : InSession think_time past done cur last s)
    (hroom : past.length < MAX_SESSION_TEMPLATES) {line : List Byte} (uri : List Byte)
    (hline : isspace (line.headD 0) = true) :
    ∃ s', s.add_request think_time line uri = .ok s' ∧ s'.fp = s.fp ∧
      InSession think_time past done (cur ++ [last]) (new_request uri) s' := by
  obtain ⟨rfront, bfront, bs, hg⟩ := h.growing
  have hlen : s.reqs.length = rfront.length + cur.length + 1 := by rw [hg.reqs, grown_length]
  have hlink : s.link_request think_time line uri = .ok { s with
      reqs := grown rfront (cur ++ [last]) (new_request uri) } := by
    unfold Parser.link_request
    rw [h.sptr, hg.template]
    dsimp only
    rw [hline, if_neg (by decide), hlen, hg.reqs, link_grown]
  unfold Parser.add_request
  rw [if_neg (by rw [h.sptr]; omega), hlink]
  dsimp only
  rw [count_request_eq (by exact hg.bursts) (by exact hg.current_burst)]
  refine ⟨_, rfl, rfl, h.sptr, h.num_templates, fun i hi => ?_, rfront, bfront, bs, rfl, ?_,
    hg.current_burst, ?_, hg.done, fun i session hi => ?_⟩
  · dsimp only
    rw [h.sptr, Function.update_of_ne (by omega)]
    exact h.zero i hi
  · dsimp only
    rw [List.length_append, List.length_singleton]
  · dsimp only
    rw [h.sptr, Function.update_self, hg.template, hlen, List.length_append, List.length_singleton]
    simp [Nat.add_assoc]
  · have hlt := (List.getElem?_eq_some_iff.mp hi).1
    dsimp only
    rw [h.sptr, Function.update_of_ne (by omega)]
    exact hg.past i session hi

/-- An argument of the last request. -/
theorem InSession.set_req (h : InSession think_time past done cur last s) (f : ReqData → ReqData) :
    InSession think_time past done cur (f last) (s.set_req f) := by
  obtain ⟨rfront, bfront, bs, hg⟩ := h.growing
  have hset : s.set_req f = { s with reqs := grown rfront cur (f last) } := by
    unfold Parser.set_req
    rw [h.sptr, hg.template]
    dsimp only
    rw [hg.reqs, modify_grown]
  rw [hset]
  exact ⟨h.sptr, h.num_templates, h.zero, rfront, bfront, bs,
    ⟨rfl, hg.bursts, hg.current_burst, hg.template, hg.done, hg.past⟩⟩

end

end Httperf.WsessLog
