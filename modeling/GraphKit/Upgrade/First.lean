import GraphKit.Upgrade.Rules

/-!
# Rules of the first release

What changed with release 1.0.
-/

namespace GraphKit.Upgrade

namespace First

open Text (words)

def keywordGroups : List (List (String × String) × List String) := [
  ([("adj_x", "adjoint_a"), ("adj_y", "adjoint_b")], ["batch_matmul"]),
  ([("reduction_indices", "axis")],
    words "count_nonzero reduce_all reduce_any reduce_max reduce_mean reduce_min reduce_prod
    reduce_sum reduce_logsumexp reduce_join"),
  ([("dim", "axis")], ["expand_dims"]),
  ([("dimension", "axis")], ["argmax", "argmin"]),
  ([("concat_dim", "axis")], ["sparse_concat", "concat"]),
  ([("split_dim", "axis")], ["sparse_split"]),
  ([("reduction_axes", "axis")], ["sparse_reduce_sum", "sparse_reduce_sum_sparse"]),
  ([("seq_dim", "seq_axis"), ("batch_dim", "batch_axis")], ["reverse_sequence"]),
  ([("squeeze_dims", "axis")], ["squeeze"]),
  ([("split_dim", "axis"), ("num_split", "num_or_size_splits")], ["split"])
]

def renames : List (String × String) := inTurns (words "
  inv reciprocal  contrib.deprecated.scalar_summary summary.scalar
  contrib.deprecated.histogram_summary summary.histogram  listdiff setdiff1d  list_diff setdiff1d  mul multiply
  neg negative  sub subtract  train.SummaryWriter summary.FileWriter  scalar_summary summary.scalar
  histogram_summary summary.histogram  audio_summary summary.audio  image_summary summary.image
  merge_summary summary.merge  merge_all_summaries summary.merge_all
  image.per_image_whitening image.per_image_standardization  all_variables global_variables
  VARIABLES GLOBAL_VARIABLES  initialize_all_variables global_variables_initializer
  initialize_variables variables_initializer  initialize_local_variables local_variables_initializer  select where
  complex_abs abs  pack stack  unpack unstack  op_scope name_scope") ++
  byStart [("batch_", "", words "matrix_diag band_part set_diag matrix_transpose matrix_determinant matrix_inverse
    cholesky cholesky_solve matrix_solve matrix_triangular_solve matrix_solve_ls self_adjoint_eig
    self_adjoint_eigvals svd fft ifft fft2d ifft2d fft3d ifft3d matmul")]

def reorderGroups : List (List String × List String) := [
  (words "axis num_or_size_splits value name", ["split", "sparse_split"]),
  (["concat_dim", "values", "name"], ["concat"]),
  (words "tensor compute_uv full_matrices name", ["svd"]),
  (words "logits labels dim name", ["nn.softmax_cross_entropy_with_logits"]),
  (["logits", "labels", "name"],
    ["nn.sparse_softmax_cross_entropy_with_logits", "nn.sigmoid_cross_entropy_with_logits"]),
  (["values", "name", "default_name"], ["op_scope"])
]

end First

def first : Rules where
  keywords := keywordTable First.keywordGroups
  renames := First.renames
  toFunction := ["tf.ones_initializer", "tf.zeros_initializer"]
  reorders := groupTable First.reorderGroups
  handlers := [("tf.reverse", .checkReverse)]

end GraphKit.Upgrade
