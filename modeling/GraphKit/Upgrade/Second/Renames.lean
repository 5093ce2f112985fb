import GraphKit.Upgrade.Rules

/-!
# Symbols that the second release moved

* `legacy`: symbols that are kept under `tf.compat.v1` only, by the module they were in.
* `moved`: symbols whose names begin in another way; `renamed`: symbols with another new name.
-/

namespace GraphKit.Upgrade.Second

open Text (words)

def losses : List String :=
  words "absolute_difference add_loss compute_weighted_loss cosine_distance get_losses get_regularization_loss
    get_regularization_losses get_total_loss hinge_loss huber_loss log_loss mean_pairwise_squared_error
    mean_squared_error sigmoid_cross_entropy softmax_cross_entropy sparse_softmax_cross_entropy"

def metrics : List String :=
  words "accuracy auc average_precision_at_k false_negatives false_negatives_at_thresholds false_positives
    false_positives_at_thresholds mean mean_absolute_error mean_cosine_distance mean_iou mean_per_class_accuracy
    mean_relative_error mean_squared_error mean_tensor percentage_below precision precision_at_k
    precision_at_thresholds precision_at_top_k recall recall_at_k recall_at_thresholds recall_at_top_k
    root_mean_squared_error sensitivity_at_specificity sparse_average_precision_at_k sparse_precision_at_k
    specificity_at_sensitivity true_negatives true_negatives_at_thresholds true_positives
    true_positives_at_thresholds"

def legacy : List (String × List String) := [
  ("", words "AUTO_REUSE AttrValue ConditionalAccumulator ConditionalAccumulatorBase ConfigProto DeviceSpec
    Dimension FixedLengthRecordReader GPUOptions GraphDef GraphKeys GraphOptions HistogramProto IdentityReader
    InteractiveSession LMDBReader LogMessage MetaGraphDef NameAttrList NodeDef OptimizerOptions Print ReaderBase
    RunMetadata RunOptions Session SessionLog SparseTensorValue TFRecordReader TensorInfo TextLineReader
    VariableScope WholeFileReader add_check_numerics_ops add_to_collection add_to_collections all_variables
    assert_greater_equal assert_integer assert_less_equal assert_near assert_negative assert_non_negative
    assert_non_positive assert_none_equal assert_positive assert_rank_at_least assert_rank_in assert_scalar
    assert_type assert_variables_initialized assign assign_add assign_sub batch_scatter_update clip_by_average_norm
    colocate_with container convert_to_tensor_or_indexed_slices convert_to_tensor_or_sparse_tensor count_nonzero
    count_up_to create_partitioned_variables delete_session_tensor depth_to_space dimension_at_index
    dimension_value disable_eager_execution disable_resource_variables disable_v2_batch_normalization
    disable_v2_behavior disable_v2_tensorshape div enable_eager_execution enable_resource_variables
    enable_v2_batch_normalization enable_v2_behavior enable_v2_tensorshape fixed_size_partitioner get_collection
    get_collection_ref get_default_graph get_default_session get_local_variable get_seed get_session_handle
    get_session_tensor get_variable get_variable_scope global_variables global_variables_initializer
    glorot_normal_initializer glorot_uniform_initializer initialize_all_tables initialize_all_variables
    initialize_local_variables initialize_variables is_variable_initialized local_variables
    local_variables_initializer make_template make_tensor_proto min_max_variable_partitioner model_variables
    moving_average_variables op_scope orthogonal_initializer placeholder placeholder_with_default py_func
    random_poisson report_uninitialized_variables reset_default_graph scatter_add scatter_nd_add scatter_nd_sub
    scatter_nd_update scatter_sub scatter_update serialize_many_sparse serialize_sparse set_random_seed setdiff1d
    space_to_depth sparse_merge sparse_placeholder sparse_reduce_max_sparse sparse_reduce_sum_sparse
    sparse_segment_mean sparse_segment_sqrt_n sparse_segment_sum sparse_to_dense tables_initializer to_bfloat16
    to_complex128 to_complex64 to_double to_float to_int32 to_int64 trainable_variables
    uniform_unit_scaling_initializer variable_axis_size_partitioner variable_op_scope variable_scope
    variables_initializer variance_scaling_initializer verify_tensor_all_finite wrap_function pywrap_tensorflow"),
  ("app.", ["run"]),
  ("data.", ["make_initializable_iterator", "make_one_shot_iterator", "Iterator"]),
  ("distributions.", words "Bernoulli Beta Categorical Dirichlet DirichletMultinomial Distribution Exponential
    FULLY_REPARAMETERIZED Gamma Laplace Multinomial NOT_REPARAMETERIZED Normal RegisterKL ReparameterizationType
    StudentT Uniform kl_divergence"),
  ("feature_column.", ["input_layer", "linear_model"]),
  ("gfile.", ["FastGFile"]),
  ("graph_util.", words "convert_variables_to_constants extract_sub_graph must_run_on_cpu remove_training_nodes
    tensor_shape_from_node_def_name"),
  ("image.", words "resize_area resize_bicubic resize_bilinear resize_images resize_nearest_neighbor
    transpose_image"),
  ("initializers.", words "constant global_variables glorot_normal glorot_uniform he_normal he_uniform identity
    lecun_normal lecun_uniform local_variables ones orthogonal random_normal random_uniform tables_initializer
    truncated_normal uniform_unit_scaling variables variance_scaling zeros"),
  ("io.", ["tf_record_iterator"]),
  ("keras.initializers.", words "Identity Orthogonal TruncatedNormal VarianceScaling constant glorot_normal
    glorot_uniform he_normal he_uniform identity lecun_normal lecun_uniform normal ones orthogonal random_normal
    random_uniform truncated_normal uniform zeros"),
  ("layers.", words "AveragePooling1D AveragePooling2D AveragePooling3D BatchNormalization Conv1D Conv2D
    Conv2DTranspose Conv3D Conv3DTranspose Dense Dropout Flatten Layer MaxPooling1D MaxPooling2D MaxPooling3D
    SeparableConv1D SeparableConv2D average_pooling1d average_pooling2d average_pooling3d batch_normalization
    conv1d conv2d conv2d_transpose conv3d conv3d_transpose dense dropout flatten max_pooling1d max_pooling2d
    max_pooling3d separable_conv1d separable_conv2d"),
  ("layers.experimental.", ["keras_style_scope", "set_keras_style"]),
  ("logging.", words "DEBUG ERROR FATAL INFO TaskLevelStatusMessage WARN debug error fatal flush get_verbosity
    info log log_every_n log_first_n log_if set_verbosity vlog warn warning"),
  ("losses.", losses),
  ("metrics.", metrics),
  ("nn.", words "bidirectional_dynamic_rnn depthwise_conv2d_native dynamic_rnn quantized_avg_pool
    quantized_conv2d quantized_max_pool quantized_relu_x raw_rnn relu_layer static_bidirectional_rnn static_rnn
    xw_plus_b fused_batch_norm ctc_loss"),
  ("nn.rnn_cell.", words "BasicLSTMCell BasicRNNCell DropoutWrapper GRUCell LSTMCell MultiRNNCell"),
  ("profiler.", words "AdviceProto GraphNodeProto MultiGraphNodeProto OpLogProto ProfileOptionBuilder Profiler
    advise profile write_op_log"),
  ("python_io.", ["tf_record_iterator"]),
  ("ragged.", ["RaggedTensorValue", "constant_value"]),
  ("random.", ["get_seed", "set_random_seed"]),
  ("resource_loader.", words "get_data_files_path get_path_to_datafile get_root_dir_with_all_resources
    load_resource readahead_file_path"),
  ("saved_model.", words "Builder LEGACY_INIT_OP_KEY MAIN_OP_KEY build_tensor_info get_tensor_from_tensor_info
    load main_op_with_restore maybe_saved_model_directory simple_save"),
  ("saved_model.builder.", ["SavedModelBuilder"]),
  ("saved_model.constants.", ["LEGACY_INIT_OP_KEY", "MAIN_OP_KEY"]),
  ("saved_model.loader.", ["load", "maybe_saved_model_directory"]),
  ("saved_model.main_op.", ["main_op", "main_op_with_restore"]),
  ("saved_model.utils.", ["build_tensor_info", "get_tensor_from_tensor_info"]),
  ("sparse.", words "merge placeholder reduce_max_sparse reduce_sum_sparse"),
  ("summary.", words "SessionLog audio get_summary_description histogram image merge merge_all scalar
    tensor_summary text"),
  ("test.", words "StubOutForTesting compute_gradient compute_gradient_error get_temp_dir mock test_src_dir_path"),
  ("train.", words "AdadeltaOptimizer AdagradDAOptimizer AdagradOptimizer AdamOptimizer ChiefSessionCreator
    FtrlOptimizer GradientDescentOptimizer LooperThread MomentumOptimizer MonitoredSession MonitoredTrainingSession
    NewCheckpointReader Optimizer ProximalAdagradOptimizer QueueRunner RMSPropOptimizer Saver SaverDef Scaffold
    SessionCreator SessionManager SingularMonitoredSession Supervisor SyncReplicasOptimizer WorkerSessionCreator
    add_queue_runner assert_global_step basic_train_loop batch batch_join checkpoint_exists create_global_step
    do_quantize_training_on_graphdef export_meta_graph generate_checkpoint_state_proto get_checkpoint_mtimes
    get_global_step get_or_create_global_step global_step import_meta_graph init_from_checkpoint input_producer
    limit_epochs maybe_batch maybe_batch_join maybe_shuffle_batch maybe_shuffle_batch_join piecewise_constant
    range_input_producer remove_checkpoint replica_device_setter shuffle_batch shuffle_batch_join
    slice_input_producer start_queue_runners string_input_producer update_checkpoint_state warm_start"),
  ("train.queue_runner.", ["QueueRunner", "add_queue_runner", "start_queue_runners"]),
  ("estimator.", ["inputs"]),
  ("contrib.data.", words "batch_and_drop_remainder padded_batch_and_drop_remainder read_batch_features
    reduce_dataset sliding_window_batch sloppy_interleave"),
  ("losses.Reduction.", ["MEAN", "SUM_BY_NONZERO_WEIGHTS", "SUM_OVER_NONZERO_WEIGHTS"])
]

def moved : List (String × String × List String) := [
  ("", "version.", words "COMPILER_VERSION GIT_VERSION GRAPH_DEF_VERSION GRAPH_DEF_VERSION_MIN_CONSUMER
    GRAPH_DEF_VERSION_MIN_PRODUCER VERSION"),
  ("", "sysconfig.", ["CXX11_ABI_FLAG", "MONOLITHIC_BUILD"]),
  ("", "queue.", words "FIFOQueue PaddingFIFOQueue PriorityQueue QueueBase RandomShuffleQueue"),
  ("", "io.", words "FixedLenFeature FixedLenSequenceFeature SparseFeature VarLenFeature decode_base64
    decode_compressed decode_json_example decode_raw deserialize_many_sparse encode_base64 matching_files
    parse_single_sequence_example parse_tensor read_file serialize_tensor write_file decode_csv parse_example
    parse_single_example"),
  ("", "math.", words "accumulate_n angle betainc ceil conj cumprod digamma erf erfc expm1 floordiv igamma
    igammac imag invert_permutation is_finite is_inf is_nan is_non_decreasing is_strictly_increasing lbeta lgamma
    log log1p log_sigmoid logical_xor polygamma real reciprocal rint rsqrt segment_max segment_mean segment_min
    segment_prod segment_sum squared_difference zeta bincount confusion_matrix"),
  ("unsorted_segment_", "math.unsorted_segment_", words "max mean min prod sqrt_n sum"),
  ("", "debugging.", words "assert_proper_iterable assert_same_float_dtype check_numerics is_numeric_tensor"),
  ("", "linalg.", words "cholesky cholesky_solve cross global_norm qr svd trace"),
  ("debugging.", "math.", words "is_finite is_inf is_nan is_non_decreasing is_strictly_increasing"),
  ("", "quantization.", ["dequantize", "quantize", "quantized_concat"]),
  ("fake_quant_with_min_max_", "quantization.fake_quant_with_min_max_", words "args args_gradient vars vars_gradient
    vars_per_channel vars_per_channel_gradient"),
  ("", "signal.", words "fft fft2d fft3d ifft ifft2d ifft3d"),
  ("io.", "queue.", words "PaddingFIFOQueue PriorityQueue QueueBase RandomShuffleQueue"),
  ("manip.", "", words "gather_nd reshape reverse roll scatter_nd space_to_batch_nd tile"),
  ("nn.", "random.", ["log_uniform_candidate_sampler", "uniform_candidate_sampler"]),
  ("python_io.", "io.", ["TFRecordCompressionType", "TFRecordOptions", "TFRecordWriter"]),
  ("", "image.", ["random_crop", "extract_image_patches"]),
  ("", "strings.", ["regex_replace", "substr", "reduce_join"]),
  ("saved_model.constants.", "saved_model.", words "ASSETS_DIRECTORY ASSETS_KEY SAVED_MODEL_FILENAME_PB
    SAVED_MODEL_FILENAME_PBTXT SAVED_MODEL_SCHEMA_VERSION VARIABLES_DIRECTORY VARIABLES_FILENAME"),
  ("saved_model.signature_constants.", "saved_model.", words "CLASSIFY_INPUTS CLASSIFY_METHOD_NAME
    CLASSIFY_OUTPUT_CLASSES CLASSIFY_OUTPUT_SCORES DEFAULT_SERVING_SIGNATURE_DEF_KEY PREDICT_INPUTS
    PREDICT_METHOD_NAME PREDICT_OUTPUTS REGRESS_INPUTS REGRESS_METHOD_NAME REGRESS_OUTPUTS"),
  ("saved_model.signature_def_utils.", "saved_model.", words "build_signature_def classification_signature_def
    is_valid_signature predict_signature_def regression_signature_def"),
  ("saved_model.tag_constants.", "saved_model.", ["GPU", "SERVING", "TPU"]),
  ("spectral.", "signal.", words "dct fft fft2d fft3d idct ifft ifft2d ifft3d irfft irfft2d irfft3d rfft rfft2d
    rfft3d"),
  ("train.", "estimator.", words "CheckpointSaverHook CheckpointSaverListener FeedFnHook FinalOpsHook
    GlobalStepWaiterHook LoggingTensorHook NanLossDuringTrainingError NanTensorHook ProfilerHook SecondOrStepTimer
    SessionRunArgs SessionRunContext SessionRunHook SessionRunValues StepCounterHook StopAtStepHook
    SummarySaverHook VocabInfo"),
  ("train.", "io.", ["match_filenames_once", "write_graph"]),
  ("contrib.data.", "data.experimental.", words "AUTOTUNE Counter CheckpointInputPipelineHook CsvDataset
    Optional RandomDataset Reducer SqlDataset StatsAggregator TFRecordWriter assert_element_shape
    bucket_by_sequence_length choose_from_datasets copy_to_device dense_to_sparse_batch enumerate_dataset
    get_next_as_optional get_single_element group_by_reducer group_by_window ignore_errors latency_stats
    make_batched_features_dataset make_csv_dataset make_saveable_from_iterator map_and_batch parallel_interleave
    parse_example_dataset prefetch_to_device rejection_resample sample_from_datasets scan set_stats_aggregator
    shuffle_and_repeat unbatch unique"),
  ("contrib.rnn.", "nn.rnn_cell.", ["RNNCell", "LSTMStateTuple"]),
  ("contrib.framework.", "", ["sort", "argsort"]),
  ("sparse_", "sparse.", words "add concat fill_empty_rows mask maximum minimum reduce_max reduce_sum reorder
    reset_shape reshape retain slice softmax split to_indicator transpose"),
  ("matrix_", "linalg.", words "band_part diag diag_part set_diag solve transpose triangular_solve"),
  ("string_", "strings.", words "join strip to_hash_bucket to_hash_bucket_fast to_hash_bucket_strong to_number"),
  ("random_", "random.", words "gamma normal shuffle uniform"),
  ("sets.set_", "sets.", words "difference intersection size union")
]

def renamed : List (String × String) := inTurns (words "
  NoGradient no_gradient  NotDifferentiable no_gradient  OpError errors.OpError
  QUANTIZED_DTYPES dtypes.QUANTIZED_DTYPES  SparseConditionalAccumulator sparse.SparseConditionalAccumulator
  arg_max argmax  arg_min argmin  batch_gather gather  batch_to_space_nd batch_to_space
  constant_initializer compat.v1.initializers.constant  diag linalg.tensor_diag  diag_part linalg.tensor_diag_part
  gfile.Copy io.gfile.copy  gfile.DeleteRecursively io.gfile.rmtree  gfile.Exists io.gfile.exists
  gfile.GFile io.gfile.GFile  gfile.Glob io.gfile.glob  gfile.IsDirectory io.gfile.isdir
  gfile.ListDirectory io.gfile.listdir  gfile.MakeDirs io.gfile.makedirs  gfile.MkDir io.gfile.mkdir
  gfile.Open io.gfile.GFile  gfile.Remove io.gfile.remove  gfile.Rename io.gfile.rename  gfile.Stat io.gfile.stat
  gfile.Walk io.gfile.walk  layers.InputSpec keras.layers.InputSpec  lin_space linspace
  lite.constants.FLOAT float32  lite.constants.INT32 int32  lite.constants.INT64 int64
  lite.constants.QUANTIZED_UINT8 uint8  lite.constants.STRING string  load_file_system_library load_library
  manip.batch_to_space_nd batch_to_space  matrix_determinant linalg.det  matrix_inverse linalg.inv
  matrix_solve_ls linalg.lstsq  multinomial random.categorical
  nn.conv3d_backprop_filter_v2 nn.conv3d_backprop_filter  nn.ctc_beam_search_decoder_v2 nn.ctc_beam_search_decoder
  nn.ctc_loss_v2 nn.ctc_loss  nn.depthwise_conv2d_native_backprop_filter nn.depthwise_conv2d_backprop_filter
  nn.depthwise_conv2d_native_backprop_input nn.depthwise_conv2d_backprop_input
  nn.softmax_cross_entropy_with_logits_v2 nn.softmax_cross_entropy_with_logits  nn.space_to_batch space_to_batch
  ones_initializer compat.v1.initializers.ones  quantize_v2 quantization.quantize
  random.multinomial random.categorical  random.stateless_multinomial random.stateless_categorical
  random_normal_initializer compat.v1.initializers.random_normal
  random_uniform_initializer compat.v1.initializers.random_uniform  reverse_v2 reverse
  saved_model.TRAINING saved_model.TRANING  saved_model.experimental.save saved_model.save
  saved_model.tag_constants.TRAINING saved_model.TRANING  self_adjoint_eig linalg.eigh
  self_adjoint_eigvals linalg.eigvalsh  space_to_batch_nd space_to_batch  sparse.matmul sparse.sparse_dense_matmul
  sparse_matmul linalg.matmul  sparse_tensor_dense_matmul sparse.sparse_dense_matmul
  sparse_tensor_to_dense sparse.to_dense  train.Server distribute.Server
  train.confusion_matrix math.confusion_matrix  truncated_normal random.truncated_normal
  truncated_normal_initializer compat.v1.initializers.truncated_normal
  zeros_initializer compat.v1.initializers.zeros")

def renames : List (String × String) :=
  byStart (legacy.map fun (place, names) => (place, "compat.v1." ++ place, names)) ++ byStart moved ++ renamed

end GraphKit.Upgrade.Second
