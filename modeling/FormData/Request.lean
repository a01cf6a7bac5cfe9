/-
Whole requests: every part of a body kept as an item, in the order of transmission, or nothing kept
at all. The items may be grouped by field, in the order in which the fields first occur.
-/
import FormData.Item

namespace FormData.Request

/-- What became of a request: the items or the error, the depot, and the progress reported. -/
structure Outcome where
  result : Except Error (List Item)
  depot : Depot
  /-- In the order of reporting. -/
  reports : List Progress

/-- The depot without any of the items. -/
def releaseAll (items : List Item) (d : Depot) : Depot :=
  items.foldl (fun d i => i.release d) d

def reportsOf (s : Session) : List Progress :=
  s.window.feed.account.reports.reverse

/-- Keeps the parts that are left, behind items kept already, the last one first. -/
def keepFrom (s : Session) (d : Depot) (items : List Item) : Outcome :=
  match h : s.next with
  | .ended s' => ⟨.ok items.reverse, d, reportsOf s'⟩
  | .failed e s' => ⟨.error e, releaseAll items d, reportsOf s'⟩
  | .part p =>
    match hk : p.keep d with
    | (.error e, p', d') => ⟨.error e, releaseAll items d', reportsOf p'.session⟩
    | (.ok item, p', d') =>
      have : p'.session.left < s.left := by
        have h1 := OpenPart.left_keep_le p d
        rw [hk] at h1
        exact Nat.lt_of_le_of_lt h1 (Session.next_left_lt h)
      keepFrom p'.session d' (item :: items)
termination_by s.left

/-- Keeps every part of a body of this content type. -/
def parse (source : Source) (contentType : String) (settings : Settings) (d : Depot) : Outcome :=
  match Session.ofContentType? source contentType settings with
  | .error e => ⟨.error e, d, []⟩
  | .ok s => keepFrom s d []

/-- Adds an item behind the others of its field. -/
def addToField (item : Item) : List (String × List Item) → List (String × List Item)
  | [] => [(item.field.getD "", [item])]
  | (field, items) :: rest =>
    if field = item.field.getD "" then (field, items ++ [item]) :: rest
    else (field, items) :: addToField item rest

/-- Items by field; those of no field are under the empty name. -/
def byField (items : List Item) : List (String × List Item) :=
  items.foldl (fun fields item => addToField item fields) []

/-- What became of a request whose items are grouped by field. -/
structure FieldsOutcome where
  result : Except Error (List (String × List Item))
  depot : Depot
  /-- In the order of reporting. -/
  reports : List Progress

/-- Keeps every part of a body of this content type, the items by field. -/
def parseByField (source : Source) (contentType : String) (settings : Settings) (d : Depot) :
    FieldsOutcome :=
  let o := parse source contentType settings d
  { result := o.result.map byField, depot := o.depot, reports := o.reports }

end FormData.Request
