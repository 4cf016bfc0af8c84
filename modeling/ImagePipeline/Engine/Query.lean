/-!
# Queries for images

A query restricts the images of the engine by reference, labels and whether they have a tag. All
conditions have to hold.
-/

namespace ImagePipeline

/-- A query for images. -/
structure ImageQuery where
  /-- The reference of the image. -/
  reference : Option String := none
  /-- Label filters, each of which the image satisfies. -/
  labels : List String := []
  /-- Whether only images without a tag are asked for. -/
  dangling : Bool := false
  /-- Whether intermediate images are asked for, too. -/
  all : Bool := false
deriving DecidableEq, Repr, Inhabited

namespace ImageQuery

/-- The images with a reference. -/
def ofReference (reference : String) : ImageQuery := { reference := some reference }

/-- The images that satisfy a label filter. -/
def ofLabel (label : String) : ImageQuery := { labels := [label] }

/-- The query with more label filters. -/
def withLabels (q : ImageQuery) (labels : List String) : ImageQuery :=
  { q with labels := q.labels ++ labels }

/-- The filters as the engine takes them: names with lists of values. -/
def filters (q : ImageQuery) : List (String × List String) :=
  (q.reference.map fun r => ("reference", [r])).toList
    ++ (if q.labels.isEmpty then [] else [("label", q.labels)])
    ++ (if q.dangling then [("dangling", ["true"])] else [])

end ImageQuery

end ImagePipeline
