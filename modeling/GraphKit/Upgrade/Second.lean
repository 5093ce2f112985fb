import GraphKit.Upgrade.Second.Renames
import GraphKit.Upgrade.Second.Warnings

/-!
# Rules of the second release

* `second`: what changed with release 2.0.
-/

namespace GraphKit.Upgrade

open Text (words)

def Second.reductions : List String :=
  (words "all any min max sum mean prod logsumexp").flatMap fun n => ["reduce_" ++ n, "math.reduce_" ++ n]

/-- Functions that share the same renamed keywords. -/
def Second.keywordGroups : List (List (String × String) × List String) := [
  ([("dimension", "axis")], words "argmin argmax arg_min arg_max math.argmin math.argmax"),
  ([("box_ind", "box_indices")], ["image.crop_and_resize"]),
  ([("ksizes", "sizes")], ["image.extract_image_patches", "extract_image_patches"]),
  ([("dim", "axis")],
    words "expand_dims nn.softmax_cross_entropy_with_logits_v2 linalg.l2_normalize math.l2_normalize
    math.log_softmax math.softmax nn.l2_normalize nn.log_softmax nn.softmax"),
  ([("block_size", "block_shape")], ["batch_to_space", "space_to_batch", "nn.space_to_batch"]),
  ([("verify_shape", "verify_shape_is_now_always_true")], ["constant"]),
  ([("preferred_dtype", "dtype_hint")], ["convert_to_tensor"]),
  ([("keep_dims", "keepdims")], words "linalg.norm norm nn.moments nn.sufficient_statistics nn.weighted_moments"),
  ([("library_filename", "library_location")], ["load_file_system_library"]),
  ([("input_tensor", "input"), ("keep_dims", "keepdims"), ("reduction_indices", "axis")], ["math.count_nonzero"]),
  ([("kernel", "filters"), ("rates", "dilations")], ["nn.erosion2d"]),
  ([("dilation_rate", "dilations")], ["nn.pool"]),
  ([("rate", "dilations")], ["nn.separable_conv2d", "nn.depthwise_conv2d"]),
  ([("t", "x"), ("msg", "message")], ["debugging.assert_all_finite"]),
  ([("thresh", "threshold")], ["sparse.add", "sparse_add"]),
  ([("concat_dim", "axis"), ("expand_nonconcat_dim", "expand_nonconcat_dims")], ["sparse.concat", "sparse_concat"]),
  ([("split_dim", "axis")], ["sparse.split", "sparse_split"]),
  ([("reduction_axes", "axis"), ("keep_dims", "keepdims")],
    words "sparse.reduce_max sparse_reduce_max sparse.reduce_sum sparse_reduce_sum"),
  ([("Targmax", "output_dtype")], ["nn.max_pool_with_argmax"]),
  ([("output_dtype", "dtype")], ["multinomial", "random.multinomial", "random.stateless_multinomial"]),
  ([("seq_dim", "seq_axis"), ("batch_dim", "batch_axis")], ["reverse_sequence"]),
  ([("t", "input"), ("m", "mean"), ("v", "variance")], ["nn.batch_norm_with_global_normalization"]),
  ([("filter", "filters"), ("rates", "dilations")], ["nn.dilation2d"]),
  ([("filter", "filters")], ["nn.conv3d"]),
  ([("tensor", "input")], ["zeros_like", "ones_like"]),
  ([("value", "input"), ("filter", "filters")], ["nn.conv2d_transpose", "nn.conv3d_transpose"]),
  ([("filter", "filters"), ("dilation_rate", "dilations")], ["nn.convolution"]),
  ([("filename", "path")], ["gfile.Exists", "gfile.Remove", "gfile.Stat"]),
  ([("filename", "pattern")], ["gfile.Glob"]),
  ([("dirname", "path")],
    words "gfile.MkDir gfile.MakeDirs gfile.DeleteRecursively gfile.IsDirectory gfile.ListDirectory"),
  ([("oldpath", "src"), ("newpath", "dst")], ["gfile.Copy"]),
  ([("oldname", "src"), ("newname", "dst")], ["gfile.Rename"]),
  ([("in_order", "topdown")], ["gfile.Walk"]),
  ([("string_tensor", "input")],
    words "string_to_number strings.to_number string_to_hash_bucket strings.to_hash_bucket"),
  ([("reduction_indices", "axis"), ("keep_dims", "keepdims")], reductions),
  ([("keep_dims", "keepdims"), ("reduction_indices", "axis")], ["reduce_join", "strings.reduce_join"]),
  ([("squeeze_dims", "axis")], ["squeeze"])
]

/-- The earlier order of the parameters, with the functions that share it. -/
def Second.reorderGroups : List (List String × List String) := [
  (words "input axis name dimension output_type", words "argmax argmin math.argmax math.argmin"),
  (["params", "indices", "name"], ["batch_gather"]),
  (words "input crops block_size name", ["batch_to_space"]),
  (words "tensor mask name axis", ["boolean_mask"]),
  (words "labels predictions num_classes dtype name weights", ["confusion_matrix", "math.confusion_matrix"]),
  (words "value dtype name preferred_dtype", ["convert_to_tensor"]),
  (words "records record_defaults field_delim use_quote_delim name na_value select_cols",
    ["decode_csv", "io.decode_csv"]),
  (words "input block_size name data_format",
    words "depth_to_space nn.depth_to_space nn.space_to_depth space_to_depth"),
  (words "key vocabulary_file vocabulary_size num_oov_buckets default_value dtype",
    ["feature_column.categorical_column_with_vocabulary_file"]),
  (words "serialized features name example_names",
    words "io.parse_example io.parse_single_example parse_example parse_single_example"),
  (["sp_input", "name", "out_type"],
    words "io.serialize_many_sparse io.serialize_sparse serialize_many_sparse serialize_sparse"),
  (words "tensor ord axis keepdims name keep_dims", ["linalg.norm", "norm"]),
  (words "predictions targets k name", ["math.in_top_k", "nn.in_top_k"]),
  (words "input_tensor axis keepdims name reduction_indices keep_dims", reductions),
  (words "logits num_samples seed name output_dtype", ["multinomial", "random.multinomial"]),
  (words "input filter padding strides dilation_rate name data_format", ["nn.convolution"]),
  (["features", "name", "axis"], ["nn.crelu"]),
  (words "input filter strides padding rate name data_format", ["nn.depthwise_conv2d"]),
  (words "params ids partition_strategy name validate_indices max_norm", ["nn.embedding_lookup"]),
  (words "params sp_ids sp_weights partition_strategy name combiner max_norm", ["nn.embedding_lookup_sparse"]),
  (words "x axes shift name keep_dims", ["nn.moments"]),
  (words "input window_shape pooling_type padding dilation_rate strides name data_format", ["nn.pool"]),
  (words "input depthwise_filter pointwise_filter strides padding rate name data_format", ["nn.separable_conv2d"]),
  (words "input paddings block_size name", ["nn.space_to_batch", "space_to_batch"]),
  (words "x axes frequency_weights name keep_dims", ["nn.weighted_moments"]),
  (words "tensor paddings mode name constant_values", ["pad"]),
  (words "input min_range max_range T mode name round_mode", ["quantize_v2"]),
  (words "lam shape dtype seed name", ["random.poisson", "random_poisson"]),
  (words "inputs axis keep_dims separator name reduction_indices", ["reduce_join", "strings.reduce_join"]),
  (words "input seq_lengths seq_axis batch_axis name seq_dim batch_dim", ["reverse_sequence"]),
  (["input", "name", "out_type"], ["shape", "size"]),
  (words "a b threshold thresh", ["sparse.add", "sparse_add"]),
  (words "axis sp_inputs name expand_nonconcat_dim concat_dim", ["sparse.concat", "sparse_concat"]),
  (words "sp_input axis keepdims reduction_axes keep_dims", ["sparse.reduce_max", "sparse_reduce_max"]),
  (words "data indices segment_ids name num_segments",
    words "sparse.segment_mean sparse.segment_sqrt_n sparse.segment_sum sparse_segment_mean
    sparse_segment_sqrt_n sparse_segment_sum"),
  (words "keyword_required sp_input num_split axis name split_dim", ["sparse.split", "sparse_split"]),
  (words "a b transpose_a transpose_b a_is_sparse b_is_sparse name", ["sparse_matmul"]),
  (["input", "name", "unit"], ["strings.length"]),
  (words "input pos len name unit", ["strings.substr", "substr"]),
  (words "a perm name conjugate", ["transpose"]),
  (["tensors", "name", "control_inputs"], ["tuple"]),
  (words "cond body loop_vars shape_invariants parallel_iterations back_prop swap_memory name maximum_iterations
    return_same_structure", ["while_loop"])
]

def second : Rules where
  keywords := keywordTable Second.keywordGroups
  renames := Second.renames
  reorders := groupTable Second.reorderGroups
  warnings := groupTable Second.warningGroups
  memberWarnings := Second.memberWarnings
  handlers := [
    ("tf.batch_gather", .addBatchDims),
    ("tf.nn.dropout", .complementDropout),
    ("tf.gradients", .checkColocation "tf.gradients"),
    ("*.minimize", .checkColocation "Optimizer.minimize"),
    ("*.compute_gradients", .checkColocation "Optimizer.compute_gradients")]

end GraphKit.Upgrade
