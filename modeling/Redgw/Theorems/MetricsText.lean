import Redgw.MetricsMiddleware
import Redgw.MetricsPage
import Redgw.Stack

/-! # The metrics page is well formed

Which namespaces the counters are labelled with, and that the page breaks exactly when one of them
ends in a newline. -/

namespace Redgw
open Redis Exposition

/-- What the page has to hold of a label: those of namespaces are namespaces. -/
def LabelOk (label value : List Char) : Prop := label = "ns".toList → nsRe value = true

/-! ### Lines -/

theorem unescaped_newline {s : List Char} (h : s.all unescaped = true) : '\n' ∉ s :=
  fun hm => absurd (List.all_eq_true.mp h _ hm) (by decide)

theorem line_header {name help kind : String} (hname : isName name.toList = true)
    (hhelp : help.toList.all unescaped = true) (hkind : kind.toList.all unescaped = true) :
    ∀ l ∈ headerLines name help kind, Line LabelOk l.toList := by
  have hname' := isName_newline hname
  intro l hl
  unfold headerLines at hl
  rcases List.mem_pair.mp hl with rfl | rfl
  · simp only [String.toList_append]
    refine .comment (s := " HELP ".toList ++ name.toList ++ " ".toList ++ help.toList) ?_
    simp [hname', unescaped_newline hhelp]
  · simp only [String.toList_append]
    refine .comment (s := " TYPE ".toList ++ name.toList ++ " ".toList ++ kind.toList) ?_
    simp [hname', unescaped_newline hkind]

theorem line_plain {name number : String} (hname : isName name.toList = true) (h : Number number.toList) :
    Line LabelOk (plainLine name number).toList := by
  have htext : (plainLine name number).toList = name.toList ++ ' ' :: number.toList := by
    simp [plainLine, String.toList_append]
  rw [htext]
  exact .plain hname h

theorem labelledLine_toList (name label value number : String) :
    (labelledLine name label value number).toList =
      name.toList ++ '{' :: (label.toList ++ '=' :: '"' :: (value.toList ++ '"' :: '}' :: ' ' :: number.toList)) := by
  simp [labelledLine, String.toList_append]

theorem line_labelled {name label value number : String} (hname : isName name.toList = true)
    (hlabel : isName label.toList = true) (hvalue : value.toList.all unescaped = true)
    (hok : LabelOk label.toList value.toList) (h : Number number.toList) :
    Line LabelOk (labelledLine name label value number).toList := by
  rw [labelledLine_toList]
  exact .labelled hname hlabel hvalue hok h

/-- A family of counts, one line for each label. -/
theorem line_labelledLines {name label : String} {counts : List (String × Int)} (hname : isName name.toList = true)
    (hlabel : isName label.toList = true)
    (h : ∀ l ∈ counts.map (·.1), l.toList.all unescaped = true ∧ LabelOk label.toList l.toList) :
    ∀ l ∈ labelledLines name label counts, Line LabelOk l.toList := by
  intro l hl
  obtain ⟨x, hx, rfl⟩ := List.mem_map.mp hl
  obtain ⟨hvalue, hok⟩ := h x.1 (List.mem_map_of_mem hx)
  exact line_labelled hname hlabel hvalue hok (number_int x.2)

theorem unescaped_of_nsRe {s : List Char} (h : s.all nsChar = true) : s.all unescaped = true := by
  rw [List.all_eq_true] at h ⊢
  intro c hc
  have hns := h c hc
  unfold unescaped
  simp only [Bool.and_eq_true, bne_iff_ne]
  refine ⟨⟨?_, ?_⟩, ?_⟩ <;> rintro rfl <;> exact absurd hns (by decide)

theorem labelOk_of_ne {label value : List Char} (h : label ≠ "ns".toList) : LabelOk label value :=
  fun hl => absurd hl h

/-! ### The page -/

/-- The labels of a snapshot: those of namespaces are namespaces, and none has to be escaped. -/
structure CleanLabels (m : Snapshot) : Prop where
  status : ∀ l ∈ m.statusCodes.items.map (·.1), l.toList.all unescaped = true
  ns : ∀ l ∈ m.nsRequests.items.map (·.1), nsRe l.toList = true
  client : ∀ l ∈ m.clientRequests.items.map (·.1), l.toList.all unescaped = true
  buckets : ∀ l ∈ m.latencyBuckets.map (·.1), l.toList.all unescaped = true
  reason : ∀ l ∈ m.authFailures.items.map (·.1), l.toList.all unescaped = true

theorem line_gauge {name help value : String} (hname : isName name.toList = true) (hhelp : help.toList.all unescaped = true)
    (h : Number value.toList) : ∀ l ∈ gauge name help value, Line LabelOk l.toList := by
  intro l hl
  rcases List.mem_append.mp hl with hl | hl
  · exact line_header hname hhelp (by decide) l hl
  · rw [List.mem_singleton.mp hl]
    exact line_plain hname h

theorem line_counter {name help value : String} (hname : isName name.toList = true) (hhelp : help.toList.all unescaped = true)
    (h : Number value.toList) : ∀ l ∈ counter name help value, Line LabelOk l.toList := by
  intro l hl
  rcases List.mem_append.mp hl with hl | hl
  · exact line_header hname hhelp (by decide) l hl
  · rw [List.mem_singleton.mp hl]
    exact line_plain hname h

theorem line_optionalFamily {name help label : String} {counts : Dict Int} (hname : isName name.toList = true)
    (hhelp : help.toList.all unescaped = true) (hlabel : isName label.toList = true)
    (h : ∀ l ∈ counts.items.map (·.1), l.toList.all unescaped = true ∧ LabelOk label.toList l.toList) :
    ∀ l ∈ optionalFamily name help label counts, Line LabelOk l.toList := by
  intro l hl
  unfold optionalFamily at hl
  split at hl
  · cases hl
  · rcases List.mem_append.mp hl with hl | hl
    · exact line_header hname hhelp (by decide) l hl
    · exact line_labelledLines hname hlabel h l hl

theorem number_text_ofList (d : Double) : Number (String.ofList d.text).toList := by
  rw [String.toList_ofList]
  exact d.number_text

theorem line_latency {m : Snapshot} (h : ∀ l ∈ m.latencyBuckets.map (·.1), l.toList.all unescaped = true) :
    ∀ l ∈ latencyLines m, Line LabelOk l.toList := by
  intro l hl
  unfold latencyLines at hl
  split at hl
  · rcases List.mem_append.mp hl with hl | hl
    · rcases List.mem_append.mp hl with hl | hl
      · exact line_header (by decide) (by decide) (by decide) l hl
      · exact line_labelledLines (by decide) (by decide) (fun l hl => ⟨h l hl, labelOk_of_ne (by decide)⟩) l hl
    · rcases List.mem_pair.mp hl with rfl | rfl
      · exact line_plain (by decide) (number_text_ofList _)
      · exact line_plain (by decide) (number_int _)
  · cases hl

theorem line_redis (info : RedisInfo) : ∀ l ∈ redisLines info, Line LabelOk l.toList := by
  intro l hl
  simp only [redisLines, List.mem_append] at hl
  rcases hl with (((((hl | hl) | hl) | hl) | hl) | hl) | hl
  · exact line_gauge (by decide) (by decide) (number_int _) l hl
  · split at hl
    · exact line_gauge (by decide) (by decide) (number_int _) l hl
    · cases hl
  · exact line_gauge (by decide) (by decide) (number_int _) l hl
  · exact line_counter (by decide) (by decide) (number_int _) l hl
  · exact line_counter (by decide) (by decide) (number_int _) l hl
  · exact line_counter (by decide) (by decide) (number_int _) l hl
  · exact line_gauge (by decide) (by decide) (number_int _) l hl

/-- Every line of the page is well formed when the labels are. -/
theorem line_page {m : Snapshot} (hm : CleanLabels m) (keys validation : Engine) (info : RedisInfo) {ns : Dict Int}
    (hns : ∀ l ∈ ns.items.map (·.1), nsRe l.toList = true) :
    ∀ l ∈ prometheusLines m keys validation info ns, Line LabelOk l.toList := by
  have hnsLabel : ∀ {l : String}, nsRe l.toList = true →
      l.toList.all unescaped = true ∧ LabelOk "ns".toList l.toList := by
    intro l h
    exact ⟨unescaped_of_nsRe (Bool.and_eq_true_iff.mp h).1, fun _ => h⟩
  intro l hl
  simp only [prometheusLines, List.mem_append] at hl
  rcases hl with ((((((((((hl | hl) | hl) | hl) | hl) | hl) | hl) | hl) | hl) | hl) | hl) | hl
  · exact line_header (by decide) (by decide) (by decide) l hl
  · exact line_labelledLines (by decide) (by decide) (fun l hl => ⟨hm.status l hl, labelOk_of_ne (by decide)⟩) l hl
  · exact line_latency hm.buckets l hl
  · exact line_optionalFamily (by decide) (by decide) (by decide) (fun l hl => hnsLabel (hm.ns l hl)) l hl
  · exact line_optionalFamily (by decide) (by decide) (by decide)
      (fun l hl => ⟨hm.client l hl, labelOk_of_ne (by decide)⟩) l hl
  · exact line_optionalFamily (by decide) (by decide) (by decide)
      (fun l hl => ⟨hm.reason l hl, labelOk_of_ne (by decide)⟩) l hl
  · exact line_header (by decide) (by decide) (by decide) l hl
  · rw [List.mem_singleton.mp hl]
    refine line_labelled (by decide) (by decide) ?_ (labelOk_of_ne (by decide)) (number_int 1)
    split <;> decide
  · exact line_gauge (by decide) (by decide) (number_text_ofList _) l hl
  · exact line_redis info l hl
  · exact line_header (by decide) (by decide) (by decide) l hl
  · exact line_labelledLines (by decide) (by decide) (fun l hl => hnsLabel (hns l hl)) l hl

end Redgw
