import EntityQuery.Schema.Basic

/-!
# Sample schema: a library

Authors, books and their publishers, with relations of every kind: class-table inheritance of
publishers, single-table inheritance of tasks, and comments on books or authors.
-/

namespace EntityQuery.Sample.Library

/-- The entity `Author`. -/
def author : Entity :=
  { typeName := "Author", tableName := "authors", tag := "a"
    idType := .int, idDbType := "int"
    fields := [⟨"first_name", .primitive "first_name" "varchar"⟩,
      ⟨"last_name", .primitive "last_name" "varchar"⟩, ⟨"age", .primitive "age" "int"⟩,
      ⟨"favorite_shape", .enumeration "favorite_shape" "int"⟩,
      ⟨"publisher", .manyToOne "publisher_id" "Publisher" false⟩,
      ⟨"mentor", .manyToOne "mentor_id" "Author" false⟩, ⟨"books", .oneToMany "Book" "author_id"⟩,
      ⟨"comments", .oneToMany "Comment" "parent_author_id"⟩,
      ⟨"image", .oneToOne "Image" "author_id"⟩,
      ⟨"tags", .manyToMany "authors_to_tags" "author_id" "tag_id" "Tag" "int"⟩]
    softDelete := true, softDeleteColumn := none
    inheritance := .none }

/-- The entity `Book`. -/
def book : Entity :=
  { typeName := "Book", tableName := "books", tag := "b"
    idType := .int, idDbType := "int"
    fields := [⟨"title", .primitive "title" "varchar"⟩, ⟨"notes", .primitive "notes" "text"⟩,
      ⟨"author", .manyToOne "author_id" "Author" true⟩,
      ⟨"reviews", .oneToMany "BookReview" "book_id"⟩,
      ⟨"comments", .oneToMany "Comment" "parent_book_id"⟩]
    softDelete := true, softDeleteColumn := none
    inheritance := .none }

/-- The entity `BookReview`. -/
def bookReview : Entity :=
  { typeName := "BookReview", tableName := "book_reviews", tag := "br"
    idType := .int, idDbType := "int"
    fields := [⟨"rating", .primitive "rating" "int"⟩,
      ⟨"is_public", .primitive "is_public" "boolean"⟩, ⟨"book", .manyToOne "book_id" "Book" true⟩]
    softDelete := false, softDeleteColumn := none
    inheritance := .none }

/-- The entity `Publisher`. -/
def publisher : Entity :=
  { typeName := "Publisher", tableName := "publishers", tag := "p"
    idType := .int, idDbType := "int"
    fields := [⟨"name", .primitive "name" "varchar"⟩,
      ⟨"authors", .oneToMany "Author" "publisher_id"⟩]
    softDelete := false, softDeleteColumn := none
    inheritance := .classTable [] ["LargePublisher", "SmallPublisher"] }

/-- The entity `LargePublisher`. -/
def largePublisher : Entity :=
  { typeName := "LargePublisher", tableName := "large_publishers", tag := "p"
    idType := .int, idDbType := "int"
    fields := [⟨"country", .primitive "country" "varchar"⟩]
    softDelete := false, softDeleteColumn := none
    inheritance := .classTable ["Publisher"] [] }

/-- The entity `SmallPublisher`. -/
def smallPublisher : Entity :=
  { typeName := "SmallPublisher", tableName := "small_publishers", tag := "p"
    idType := .int, idDbType := "int"
    fields := [⟨"city", .primitive "city" "varchar"⟩]
    softDelete := false, softDeleteColumn := none
    inheritance := .classTable ["Publisher"] [] }

/-- The entity `Tag`. -/
def tag : Entity :=
  { typeName := "Tag", tableName := "tags", tag := "t"
    idType := .int, idDbType := "int"
    fields := [⟨"name", .primitive "name" "varchar"⟩]
    softDelete := false, softDeleteColumn := none
    inheritance := .none }

/-- The entity `Comment`. -/
def comment : Entity :=
  { typeName := "Comment", tableName := "comments", tag := "cm"
    idType := .int, idDbType := "int"
    fields := [⟨"text", .primitive "text" "text"⟩,
      ⟨"parent", .polymorphic [⟨"parent_book_id", "Book"⟩, ⟨"parent_author_id", "Author"⟩]⟩]
    softDelete := false, softDeleteColumn := none
    inheritance := .none }

/-- The entity `Image`. -/
def image : Entity :=
  { typeName := "Image", tableName := "images", tag := "i"
    idType := .int, idDbType := "int"
    fields := [⟨"file_name", .primitive "file_name" "varchar"⟩,
      ⟨"author", .manyToOne "author_id" "Author" false⟩]
    softDelete := false, softDeleteColumn := none
    inheritance := .none }

/-- The entity `Task`. -/
def task : Entity :=
  { typeName := "Task", tableName := "tasks", tag := "task"
    idType := .uuid, idDbType := "uuid"
    fields := [⟨"duration_in_days", .primitive "duration_in_days" "int"⟩]
    softDelete := false, softDeleteColumn := none
    inheritance := .singleTable none "type_id" none }

/-- The entity `TaskNew`. -/
def taskNew : Entity :=
  { typeName := "TaskNew", tableName := "tasks", tag := "task"
    idType := .uuid, idDbType := "uuid"
    fields := [⟨"special_new_field", .primitive "special_new_field" "int"⟩]
    softDelete := false, softDeleteColumn := none
    inheritance := .singleTable (some "Task") "type_id" (some 1) }

/-- The entities of the library. -/
def entities : List Entity :=
  [author, book, bookReview, publisher, largePublisher, smallPublisher, tag, comment, image, task,
    taskNew]

/-- The schema of the entities. -/
def schema : Except SchemaError Schema := Schema.ofEntities entities

end EntityQuery.Sample.Library
